import Maskset.Shell.Overlong
import Maskset.Logic.Terminal

/-!
# The screen

What the shell sends keeps a terminal in step with its buffer: the line under the cursor
is the prompt and the edited line. An erased character is overwritten with a blank, a
suppressed echo changes neither side, and a processed line leaves an empty one for the
next prompt.
-/

namespace Maskset.Shell
set_option autoImplicit false

open Maskset.Logic ShellContext

def ShellContext.shellPutLine (s : ShellContext) (str : List Char) : ShellContext := (s.prvEchoStr str).prvEcho '\n'

/-- `shell_help_handler` on the names and help texts of the table. -/
def ShellContext.shellHelpHandler (entries : List (List Char × List Char)) (s : ShellContext) : ShellContext :=
  entries.foldl (fun s entry => (((s.prvEchoStr entry.1).prvEchoStr ": ".toList).prvEchoStr entry.2).prvEcho '\n') s

/-- The handler that only prints, through the shell. -/
def printing (print : ShellContext → ShellContext) : List (List Char) → ShellContext → Effect :=
  fun _ s => ⟨(print s).sent.drop s.sent.length, s.rxBuffer⟩

/-- What is typed at a terminal. -/
def Key (c : Char) : Prop := printable c ∨ c = backspace ∨ c = '\r' ∨ c = '\n'

theorem echoed_printable {c : Char} (print : printable c) : echoed c = [c] := by
  have notNewline : c ≠ '\n' := print.ne (by decide)
  have notBackspace : c ≠ backspace := print.ne (by decide)
  rw [echoed, if_neg notNewline, if_neg notBackspace]

section Printing

variable {s : ShellContext}

theorem prvEchoStr_sent (str : List Char) :
    (s.prvEchoStr str).sent = s.sent ++ if s.booted then str.flatMap echoed else [] := by
  split
  · rename_i booted
    rw [prvEchoStr_eq booted, sent_print]
  · rename_i unbooted
    rw [List.append_nil]
    induction str with
    | nil => rfl
    | cons c str ih =>
      have quiet : s.prvEcho c = s := by simp [prvEcho, prvSendChar, unbooted]
      change ((s.prvEcho c).prvEchoStr str).sent = _
      rw [quiet]
      exact ih

/-- A handler that prints whole lines of text does so through the echo functions. -/
theorem printing_wholeLines {print : ShellContext → ShellContext} (text : List Char) (lines : WholeLines text)
    (prints : ∀ s, print s = s.prvEchoStr text) (argv : List (List Char)) (s : ShellContext) :
    ∃ text, (printing print argv s).printed = text.flatMap echoed ∧ WholeLines text := by
  by_cases booted : s.booted = true
  · refine ⟨text, ?_, lines⟩
    rw [printing, prints, prvEchoStr_sent, if_pos booted, List.drop_left]
  · refine ⟨[], ?_, .inl rfl⟩
    rw [printing, prints, prvEchoStr_sent, if_neg booted, List.drop_left]
    rfl

theorem shellPutLine_eq (str : List Char) : s.shellPutLine str = s.prvEchoStr (str ++ ['\n']) := by
  rw [prvEchoStr_append]
  rfl

/-- The listing of `help`, one line an entry. -/
def helpText (entries : List (List Char × List Char)) : List Char :=
  entries.flatMap fun entry => entry.1 ++ ": ".toList ++ entry.2 ++ ['\n']

theorem wholeLines_helpText (entries : List (List Char × List Char)) : WholeLines (helpText entries) := by
  induction entries with
  | nil => exact .inl rfl
  | cons entry entries ih =>
    rw [helpText, List.flatMap_cons]
    exact WholeLines.append (.inr ⟨_, rfl⟩) ih

theorem shellHelpHandler_eq (entries : List (List Char × List Char)) :
    s.shellHelpHandler entries = s.prvEchoStr (helpText entries) := by
  induction entries generalizing s with
  | nil => rfl
  | cons entry entries ih =>
    rw [helpText, List.flatMap_cons, ← helpText, prvEchoStr_append, ← ih]
    simp only [prvEchoStr_append, prvEchoStr_singleton]
    rfl

end Printing

/-- The terminal shows the line that is being edited. -/
structure OnScreen (term : Terminal) (s : ShellContext) (line : List Char) : Prop where
  holds : Holds s line
  room : line.length < rxBufferSize
  typed : ∀ c ∈ line, printable c
  screen : term.Shows (prompt ++ line)

section Screen

variable {commands : List Command} {other : Terminal → Char → Terminal} {term : Terminal} {s t : ShellContext}
  {line out : List Char} {c : Char}

/-- The next prompt stands alone on its line. -/
theorem shows_prompt : (term.display other (out ++ ['\n'] ++ prompt)).Shows prompt := by
  rw [Terminal.display_append]
  apply Terminal.shows_newline.display
  change ∀ c ∈ ['s', 'h', 'e', 'l', 'l', '>', ' '], printable c
  simp [printable]

theorem onScreen_prompt (holds : Holds s []) : OnScreen (term.display other (out ++ ['\n'] ++ prompt)) s [] := by
  constructor
  · exact holds
  · decide
  · intro c within
    exact absurd within List.not_mem_nil
  · rw [List.append_nil]
    exact shows_prompt

/-- A backspace erases the last character on both sides, or does nothing. -/
theorem OnScreen.backspace (on : OnScreen term s line) (holds : Holds t line.dropLast) :
    OnScreen (term.display other (if line = [] then [] else echoed backspace)) t line.dropLast := by
  obtain ⟨-, room, typed, screen⟩ := on
  constructor
  · exact holds
  · rw [List.length_dropLast]
    omega
  · exact fun c within => typed c (List.dropLast_subset _ within)
  · by_cases empty : line = []
    · subst empty
      exact screen
    · have erased : (term.display other (echoed Shell.backspace)).Shows (prompt ++ line).dropLast :=
        screen.erase (List.append_ne_nil_of_right_ne_nil prompt empty)
      rw [List.dropLast_append_of_ne_nil empty] at erased
      rw [if_neg empty]
      exact erased

theorem OnScreen.char (on : OnScreen term s line) (print : printable c) (holds : Holds t (line ++ [c]))
    (room : line.length + 1 < rxBufferSize) : OnScreen (term.display other (echoed c)) t (line ++ [c]) := by
  constructor
  · exact holds
  · simpa using room
  · intro c' within
    rcases List.mem_append.1 within with before | last
    · exact on.typed c' before
    · rw [List.mem_singleton.1 last]
      exact print
  · rw [echoed_printable print, ← List.append_assoc]
    exact on.screen.display (by simpa using print)

/-- **One key**: what is sent keeps the screen and the buffer in step. -/
theorem OnScreen.receive (prints : PrintsLines commands) {power : Terminal}
    (on : OnScreen (power.display other s.sent) s line) (key : Key c) :
    ∃ t line', shellReceiveChar commands s c = some t ∧ OnScreen (power.display other t.sent) t line' := by
  by_cases cr : c = '\r'
  · subst cr
    exact ⟨s, line, receive_cr commands s, on⟩
  by_cases back : c = Shell.backspace
  · subst back
    obtain ⟨t, step, holds, -, sent⟩ := receive_backspace commands on.holds on.room
    refine ⟨t, line.dropLast, step, ?_⟩
    rw [sent, Terminal.display_append]
    exact on.backspace holds
  by_cases ends : c = '\n' ∨ line.length + 1 = rxBufferSize
  · obtain ⟨t, step, holds, -, out, sent, ended⟩ := receive_end commands on.holds on.room cr back ends
    obtain ⟨body, rfl⟩ := ended prints
    refine ⟨t, [], step, ?_⟩
    rw [sent, List.append_assoc, Terminal.display_append]
    exact onScreen_prompt holds
  · obtain ⟨notNewline, notFull⟩ := not_or.1 ends
    have room : line.length + 1 < rxBufferSize := Nat.lt_of_le_of_ne on.room notFull
    have print : printable c := by
      rcases key with print | back' | cr' | newline
      · exact print
      · exact absurd back' back
      · exact absurd cr' cr
      · exact absurd newline notNewline
    obtain ⟨t, step, holds, -, sent⟩ := receive_char commands on.holds room cr back notNewline
    refine ⟨t, line ++ [c], step, ?_⟩
    rw [sent, Terminal.display_append]
    exact on.char print holds room

/-- The line on the screen, read off the buffer. -/
theorem OnScreen.shows (on : OnScreen term s line) : term.Shows (prompt ++ s.rxBuffer.toList.take s.rxSize) := by
  rw [on.holds.size, on.holds.content, List.take_left]
  exact on.screen

end Screen

/-- **The screen shows the edit buffer**: after `shell_boot` and after every call, for lines of any
length, every table whose handlers print whole lines, and every terminal. -/
theorem screen_shows_buffer (commands : List Command) (prints : PrintsLines commands)
    (other : Terminal → Char → Terminal) (power : Terminal) (s : ShellContext) (stream : List Char)
    (keys : ∀ c ∈ stream, Key c) :
    ∃ t, receiveAll commands (shellBoot s) stream = some t ∧
      (power.display other t.sent).Shows (prompt ++ t.rxBuffer.toList.take t.rxSize) := by
  obtain ⟨holds, -, sent⟩ := holds_boot s
  have start : ∃ line, OnScreen (power.display other (shellBoot s).sent) (shellBoot s) line := by
    refine ⟨[], ?_⟩
    have booted : (shellBoot s).sent = s.sent ++ ['\r'] ++ ['\n'] ++ prompt := by
      rw [sent]
      simp only [List.append_assoc, List.cons_append, List.nil_append]
    rw [booted]
    exact onScreen_prompt holds
  have steps : ∀ (before : List Char) t c, (∃ line, OnScreen (power.display other t.sent) t line) → Key c →
      ∃ u, shellReceiveChar commands t c = some u ∧ ∃ line, OnScreen (power.display other u.sent) u line := by
    intro _ t c inv key
    obtain ⟨line, on⟩ := inv
    obtain ⟨u, line', step, on'⟩ := on.receive prints key
    exact ⟨u, step, line', on'⟩
  obtain ⟨t, run, line, on⟩ := @Machine.total _ _ (shellReceiveChar commands) _ Key
    (fun _ t => ∃ line, OnScreen (power.display other t.sent) t line) start steps stream keys
  exact ⟨t, run, on.shows⟩

/-- The table, whose `help` lists it and whose other handlers answer with a line. -/
def printingCommands : List Command :=
  sShellCommands fun name =>
    if name = "help".toList then
      printing fun s => s.shellHelpHandler
        [("*IDN?".toList, "Identity response".toList), ("MAGIC?".toList, "Check magic numbers".toList),
          ("swap_images".toList, "Swap images".toList), ("reboot".toList, "Reboot System".toList),
          ("help".toList, "Lists all commands".toList)]
    else printing fun s => s.shellPutLine name

theorem printingCommands_lines : PrintsLines printingCommands := by
  intro command within argv s
  obtain ⟨name, -, rfl⟩ := List.mem_map.1 within
  dsimp only
  split
  · exact printing_wholeLines _ (wholeLines_helpText _) (fun s => shellHelpHandler_eq _) argv s
  · exact printing_wholeLines _ (.inr ⟨name, rfl⟩) (fun s => shellPutLine_eq name) argv s

/-- A mistyped command that is corrected, one that is not there, and a line that is being edited. -/
theorem screen_shows_buffer_help :
    ∃ t, receiveAll printingCommands (shellBoot unbooted) "hepl\x08\x08lp\nls\r\nre".toList = some t ∧
      ((⟨[], [], 0, Nat.le_refl 0⟩ : Terminal).display (fun term _ => term) t.sent).Shows
        (prompt ++ t.rxBuffer.toList.take t.rxSize) :=
  screen_shows_buffer printingCommands printingCommands_lines (fun term _ => term) ⟨[], [], 0, Nat.le_refl 0⟩ unbooted
    "hepl\x08\x08lp\nls\r\nre".toList (by simp [Key, printable])

end Maskset.Shell
