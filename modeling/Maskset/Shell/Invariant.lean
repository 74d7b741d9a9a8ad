import Maskset.Shell.Lines
import Maskset.Logic.Machine

/-!
# The buffer between calls

Whatever arrives, NUL and control characters included, the buffer holds a line without
line ends and backspaces that leaves the last cell free. So no access goes outside the
buffer, `prv_last_char` never sees an empty one, and the shell always accepts input.
-/

namespace Maskset.Shell
set_option autoImplicit false

open Maskset.Logic ShellContext

/-- The state `prv_process` is called in when the character arrives, if it is called. -/
def handed (s : ShellContext) (c : Char) : Option ShellContext :=
  if c = '\r' ∨ s.prvIsRxBufferFull ∨ ¬ s.booted ∨ c = backspace then none
  else
    let s := s.prvEcho c
    (store s.rxBuffer s.rxSize c).map fun rxBuffer => { s with rxBuffer, rxSize := sizeSucc s.rxSize }

/-- What holds between two calls. -/
structure Between (s : ShellContext) : Prop where
  size : s.rxSize ≤ 255
  behind : ∀ i, s.rxSize ≤ i → i < rxBufferSize → load s.rxBuffer i = some '\x00'
  typed : ∀ i < s.rxSize, ∃ c, load s.rxBuffer i = some c ∧ c ≠ '\n' ∧ c ≠ '\r' ∧ c ≠ backspace
  accepts : ¬ s.prvIsRxBufferFull ∧ s.booted = true

/-- What holds of a call. It goes through, so every access to the buffer is inside. -/
structure CallSafe (commands : List Command) (s : ShellContext) (c : Char) : Prop where
  returns : ∃ t, shellReceiveChar commands s c = some t
  ends : c = '\n' → ∃ t, shellReceiveChar commands s c = some t ∧ t.rxSize = 0
  processes : ∀ t, handed s c = some t → shellReceiveChar commands s c = prvProcess commands t
  lastChar : ∀ t, handed s c = some t → 1 ≤ t.rxSize ∧ t.rxSize ≤ rxBufferSize ∧ ∃ last, t.prvLastChar = some last
  argv : ∀ t, handed s c = some t → ∃ rxBuffer argv,
    splitArgs t.rxSize t.rxSize 0 t.rxBuffer [] none = some (rxBuffer, argv) ∧ argv.length ≤ maxArgs

/-- A character that can stand in the buffer. -/
def Typed (c : Char) : Prop := c ≠ '\n' ∧ c ≠ '\r' ∧ c ≠ backspace

/-- The buffer holds some line with room for one more character. -/
structure Editing (s : ShellContext) (line : List Char) : Prop where
  holds : Holds s line
  room : line.length < rxBufferSize
  typed : ∀ c ∈ line, Typed c

def Kept (s : ShellContext) : Prop := ∃ line, Editing s line

section Step

variable (commands : List Command) {s t : ShellContext} {line : List Char} {c : Char}

theorem editing_empty (holds : Holds s []) : Editing s [] := by
  constructor
  · exact holds
  · decide
  · intro c within
    exact absurd within List.not_mem_nil

theorem typed_edit (typed : ∀ c ∈ line, Typed c) (notNewline : c ≠ '\n') (notCr : c ≠ '\r') :
    ∀ c' ∈ edit line c, Typed c' := by
  intro c' within
  rw [edit] at within
  split at within
  · exact typed c' (List.dropLast_subset _ within)
  · rename_i notBackspace
    rcases List.mem_append.1 within with before | last
    · exact typed c' before
    · rw [List.mem_singleton.1 last]
      exact ⟨notNewline, notCr, notBackspace⟩

/-- **One call**: the buffer holds a line again, the empty one behind a newline. -/
theorem Editing.receive (editing : Editing s line) (c : Char) :
    ∃ t line', shellReceiveChar commands s c = some t ∧ Editing t line' ∧ (c = '\n' → line' = []) := by
  obtain ⟨holds, room, typed⟩ := editing
  by_cases cr : c = '\r'
  · subst cr
    exact ⟨s, line, receive_cr commands s, ⟨holds, room, typed⟩, fun newline => absurd newline (by decide)⟩
  by_cases ends : c ≠ backspace ∧ (c = '\n' ∨ line.length + 1 = rxBufferSize)
  · obtain ⟨t, step, holds', -⟩ := receive_end commands holds room cr ends.1 ends.2
    exact ⟨t, [], step, editing_empty holds', fun _ => rfl⟩
  · have notNewline : c ≠ '\n' := by
      rintro rfl
      exact ends ⟨by decide, .inl rfl⟩
    have after := (edit_fits_iff room).2 fun full => ends ⟨full.1, .inr full.2⟩
    obtain ⟨t, step, holds', -⟩ := receive_edit commands holds cr notNewline room after
    have typed' := typed_edit typed notNewline cr
    exact ⟨t, edit line c, step, ⟨holds', after, typed'⟩, fun newline => absurd newline notNewline⟩

/-- The state `prv_process` is called in holds the line and the character. -/
theorem Editing.handed (editing : Editing s line) (called : handed s c = some t) :
    t.rxSize = line.length + 1 ∧ ∃ behind, t.rxBuffer.toList = line ++ c :: behind := by
  obtain ⟨holds, room, -⟩ := editing
  unfold Shell.handed at called
  split at called
  · cases called
  · obtain ⟨rxBuffer, stored, content⟩ := store_content (a := c) (holds.next room)
    dsimp only at called
    rw [prvEcho_eq holds.booted, print_rxSize, print_rxBuffer, holds.size, stored] at called
    obtain rfl := Option.some.inj called
    exact ⟨sizeSucc_eq (Nat.lt_trans room (by decide)), _, content⟩

/-- What the model of `shell_receive_char` does with a character it keeps. -/
theorem receive_handed (called : handed s c = some t) : shellReceiveChar commands s c = prvProcess commands t := by
  unfold handed at called
  split at called
  · cases called
  · rename_i kept
    simp only [not_or] at kept
    obtain ⟨notCr, notFull, booted, notBackspace⟩ := kept
    rw [shellReceiveChar, if_neg (by simp only [not_or]; exact ⟨notCr, notFull, booted⟩)]
    dsimp only
    rw [if_neg fun h => notBackspace h.1, if_neg notBackspace, if_neg notBackspace]
    obtain ⟨rxBuffer, stored, rfl⟩ := Option.map_eq_some_iff.1 called
    rw [stored]
    rfl

theorem Editing.between (editing : Editing s line) : Between s := by
  obtain ⟨holds, room, typed⟩ := editing
  have small : line.length < 256 := room
  constructor
  · rw [holds.size]
    omega
  · intro i beyond inside
    rw [holds.size] at beyond
    rw [load, holds.content, List.getElem?_append_right beyond, List.getElem?_replicate, if_pos (by omega)]
  · intro i before
    rw [holds.size] at before
    refine ⟨line.get ⟨i, before⟩, ?_, typed _ (List.getElem_mem before)⟩
    rw [load, holds.content, List.getElem?_append_left before, List.getElem?_eq_getElem before]
    rfl
  · exact ⟨holds.notFull room, holds.booted⟩

theorem Editing.callSafe (editing : Editing s line) (c : Char) : CallSafe commands s c := by
  have room : line.length < rxBufferSize := editing.room
  obtain ⟨u, line', step, editing', fresh⟩ := editing.receive commands c
  constructor
  · exact ⟨u, step⟩
  · intro newline
    rw [fresh newline] at editing'
    exact ⟨u, step, editing'.holds.size⟩
  · intro t called
    exact receive_handed commands called
  · intro t called
    obtain ⟨size, behind, content⟩ := editing.handed called
    exact ⟨by omega, by omega, c, prvLastChar_eq size content⟩
  · intro t called
    obtain ⟨size, behind, content⟩ := editing.handed called
    obtain ⟨rxBuffer, argv, splits, strings⟩ := splitArgs_line size content
    refine ⟨rxBuffer, argv, splits, ?_⟩
    rw [strings.length_eq]
    exact List.length_take_le _ _

end Step

/-- **The buffer is safe and the shell goes on accepting input**: after `shell_boot`, whatever
arrives, whatever the table and the handlers. -/
theorem shell_accepts (commands : List Command) (s : ShellContext) (stream : List Char) :
    ∃ t, receiveAll commands (shellBoot s) stream = some t ∧ Between t ∧ ∀ c, CallSafe commands t c := by
  have start : Kept (shellBoot s) := ⟨[], editing_empty (holds_boot s).1⟩
  have steps : ∀ t c, Kept t → ∃ u, shellReceiveChar commands t c = some u ∧ Kept u := by
    intro t c kept
    obtain ⟨line, editing⟩ := kept
    obtain ⟨u, line', step, editing', -⟩ := editing.receive commands c
    exact ⟨u, step, line', editing'⟩
  obtain ⟨t, run, line, editing⟩ := Machine.always start steps stream
  exact ⟨t, run, editing.between, fun c => editing.callSafe commands c⟩

end Maskset.Shell
