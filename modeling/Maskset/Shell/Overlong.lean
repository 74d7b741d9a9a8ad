import Maskset.Shell.Reference

/-!
# Overlong lines

The shell dispatches the sections an entered line is cut into, each with its first token.
So what follows the 256th character of a line is executed as a command.
-/

namespace Maskset.Shell
set_option autoImplicit false

open Maskset.Logic ShellContext

/-- The first of the tokens between spaces. -/
def firstToken (line : List Char) : Option (List Char) := ((line.splitOn ' ').filter (!·.isEmpty)).head?

/-- The name a command is looked up with. -/
def Event.lookup : Event → Option (List Char)
  | .run _ argv => argv.head?
  | .unknown name => some name
  | _ => none

/-- The dispatches, by `argv[0]`. -/
def ShellContext.dispatched (s : ShellContext) : List (List Char) := s.results.filterMap Event.lookup

section Cut

variable {piece : List Char}

/-- A full section has all the characters the buffer holds but one. -/
theorem length_of_mem_full {line : List Char} (within : line ∈ (sectioned piece).full) :
    line.length + 1 = rxBufferSize := by
  induction piece using List.reverseRecOn with
  | nil => exact absurd within List.not_mem_nil
  | append_singleton piece c ih =>
    rw [sectioned_snoc, Sections.cut] at within
    split at within
    · rename_i full
      rcases List.mem_append.1 within with before | last
      · exact ih before
      · rw [List.mem_singleton.1 last]
        exact full.2
    · exact ih within

/-- A line that always leaves room in the buffer is one section. -/
theorem sectioned_fits (fits : ∀ start, start <+: piece → (edited start).length < rxBufferSize) :
    sectioned piece = ⟨[], edited piece⟩ := by
  induction piece using List.reverseRecOn with
  | nil => rfl
  | append_singleton piece c ih =>
    have before := fits piece (List.prefix_append _ _)
    have after := fits (piece ++ [c]) (List.prefix_refl _)
    have step : edited (piece ++ [c]) = edit (edited piece) c := by
      rw [edited, List.foldl_append]
      rfl
    rw [step, edit_fits_iff before] at after
    rw [sectioned_snoc, ih fun start inside => fits start (inside.trans (List.prefix_append _ _)), Sections.cut,
      if_neg after, step]

end Cut

/-- A line is looked up at most once, with its first token. -/
theorem lookup_lineEvents (commands : List Command) (line : List Char) :
    (lineEvents commands (arguments line)).filterMap Event.lookup = (firstToken line).toList := by
  have first : firstToken line = (arguments line).head? := by
    rw [arguments, firstToken]
    cases (line.splitOn ' ').filter (!·.isEmpty) <;> rfl
  rw [first]
  cases arguments line with
  | nil => rfl
  | cons name args =>
    rw [lineEvents]
    split <;> rfl

theorem FollowsSections.dispatched {commands : List Command} {s t : ShellContext} {stream : List Char}
    (follows : FollowsSections commands s stream t) :
    t.dispatched = s.dispatched ++ (sections stream).filterMap firstToken := by
  rw [ShellContext.dispatched, follows.results, List.filterMap_append]
  congr 1
  induction sections stream with
  | nil => rfl
  | cons line lines ih =>
    rw [List.flatMap_cons, List.filterMap_append, ih, lookup_lineEvents, List.filterMap_cons]
    cases firstToken line <;> rfl

/-- **The shell dispatches the sections**: of every stream without NUL, each section at most once,
with its first token and nothing else. A line that never fills the buffer is one section. -/
theorem shell_eq_sections (commands : List Command) (s : ShellContext) (stream : List Char)
    (noNul : '\x00' ∉ stream) :
    (∃ t, receiveAll commands (shellBoot s) stream = some t ∧
      t.dispatched = s.dispatched ++ (sections stream).filterMap firstToken ∧
      t.results = s.results ++ (sections stream).flatMap fun line => lineEvents commands (arguments line)) ∧
    ∀ piece, (∀ line ∈ (sectioned piece).full, line.length + 1 = rxBufferSize) ∧
      ((∀ start, start <+: piece → (edited start).length < rxBufferSize) → sectioned piece = ⟨[], edited piece⟩) := by
  obtain ⟨t, run, follows⟩ := receiveAll_sections commands s stream noNul
  constructor
  · exact ⟨t, run, follows.dispatched, follows.results⟩
  · intro piece
    exact ⟨fun line within => length_of_mem_full within, sectioned_fits⟩

/-- The names of `s_shell_commands`. -/
def sShellCommands (handler : List Char → List (List Char) → ShellContext → Effect) : List Command :=
  ["*IDN?".toList, "MAGIC?".toList, "swap_images".toList, "reboot".toList, "help".toList].map fun name =>
    ⟨name, handler name⟩

/-- The table with handlers that do nothing. -/
def quietCommands : List Command := sShellCommands fun _ _ s => ⟨[], s.rxBuffer⟩

def unbooted : ShellContext := ⟨false, 0, .replicate rxBufferSize '\x00', []⟩

/-- One line: 256 characters, then the name of a command. -/
def rebootTail : List Char := List.replicate 256 'x' ++ "reboot\n".toList

theorem shell_eq_sections_reboot :
    ∃ t, receiveAll quietCommands (shellBoot unbooted) rebootTail = some t ∧
      t.dispatched = [List.replicate 255 'x', "reboot".toList] := by
  obtain ⟨⟨t, run, dispatched, -⟩, -⟩ := shell_eq_sections quietCommands unbooted rebootTail (by decide +kernel)
  have names : (sections rebootTail).filterMap firstToken = [List.replicate 255 'x', "reboot".toList] := by
    decide +kernel
  rw [names] at dispatched
  exact ⟨t, run, dispatched⟩

/-- Every line that was entered is dispatched at most once, and with its first token. -/
def Unforged (s t : ShellContext) (stream : List Char) : Prop :=
  ∃ names, t.dispatched = s.dispatched ++ names ∧ List.Sublist names ((entered stream).filterMap firstToken)

/-- One entered line gives two dispatches: a token that lacks a character, and the command `reboot`
from its tail. -/
theorem tail_dispatched :
    ∃ t, receiveAll quietCommands (shellBoot unbooted) rebootTail = some t ∧
      entered rebootTail = [List.replicate 256 'x' ++ "reboot".toList] ∧
      t.results = [.line [List.replicate 255 'x'], .unknown (List.replicate 255 'x'),
        .line ["reboot".toList], .run 3 ["reboot".toList]] ∧
      ¬ Unforged unbooted t rebootTail := by
  obtain ⟨t, run, follows⟩ := receiveAll_sections quietCommands unbooted rebootTail (by decide +kernel)
  have dispatched := follows.dispatched
  have names : ((sections rebootTail).filterMap firstToken).length = 2 := by decide +kernel
  have lines : ((entered rebootTail).filterMap firstToken).length = 1 := by decide +kernel
  refine ⟨t, run, by decide +kernel, follows.results.trans (by decide +kernel), ?_⟩
  rintro ⟨names', dispatched', once⟩
  rw [List.append_cancel_left (dispatched'.symm.trans dispatched)] at once
  have length := once.length_le
  omega

end Maskset.Shell
