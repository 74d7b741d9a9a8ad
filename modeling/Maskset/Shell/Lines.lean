import Maskset.Shell.Receive
import Mathlib.Data.List.Infix

/-!
# Lines as they are edited

What a user makes of a line: `'\r'` is dropped, a backspace deletes, and the line is split
into its runs of non-space characters, sixteen at most. While there is room the buffer
holds the edited line.
-/

namespace Maskset.Shell
set_option autoImplicit false

open Maskset.Logic ShellContext

/-- A backspace deletes the last remaining character. -/
def edit (line : List Char) (c : Char) : List Char := if c = backspace then line.dropLast else line ++ [c]

def edited (piece : List Char) : List Char := piece.foldl edit []

/-- The stream without carriage returns. -/
def received (stream : List Char) : List Char := stream.filter (· ≠ '\r')

/-- The first sixteen maximal runs of characters other than a space. -/
def arguments (line : List Char) : List (List Char) := ((line.splitOn ' ').filter (!·.isEmpty)).take maxArgs

/-- The shell on a stream. -/
def receiveAll (commands : List Command) (s : ShellContext) (stream : List Char) : Option ShellContext :=
  stream.foldlM (shellReceiveChar commands) s

section Received

variable {stream : List Char} {c : Char}

theorem received_snoc_cr : received (stream ++ ['\r']) = received stream := by
  rw [received, List.filter_append, List.filter_cons_of_neg (by decide), List.filter_nil, List.append_nil]
  rfl

theorem received_snoc (notCr : c ≠ '\r') : received (stream ++ [c]) = received stream ++ [c] := by
  rw [received, List.filter_append, List.filter_cons_of_pos (by simpa using notCr), List.filter_nil]
  rfl

end Received

/-- A line without separators of its own is split at its spaces. -/
theorem runs_blank {line : List Char} (noNewline : '\n' ∉ line) :
    (runs blank line).take maxArgs = arguments line := by
  have same : runs blank line = runs (· == ' ') line := by
    apply runs_congr
    intro c within
    have notNewline : (c == '\n') = false := by
      rw [beq_eq_false_iff_ne]
      rintro rfl
      exact noNewline within
    rw [blank, notNewline, Bool.or_false]
  rw [same]
  rfl

/-- No separator of lines and no NUL gets into an edited line. -/
structure Clean (line : List Char) : Prop where
  noNul : '\x00' ∉ line
  noNewline : '\n' ∉ line

theorem Clean.edit {line : List Char} {c : Char} (clean : Clean line) (notNul : c ≠ '\x00') (notNewline : c ≠ '\n') :
    Clean (edit line c) := by
  rw [Shell.edit]
  split
  · exact ⟨fun within => clean.noNul (List.dropLast_subset _ within),
      fun within => clean.noNewline (List.dropLast_subset _ within)⟩
  · exact ⟨by simpa using ⟨clean.noNul, notNul.symm⟩, by simpa using ⟨clean.noNewline, notNewline.symm⟩⟩

section Edit

variable {s : ShellContext} {line : List Char} {c : Char}

/-- Only the character that fills the buffer leaves no room behind it. -/
theorem edit_fits_iff (before : line.length < rxBufferSize) :
    (edit line c).length < rxBufferSize ↔ ¬ (c ≠ backspace ∧ line.length + 1 = rxBufferSize) := by
  rw [edit]
  split
  · rename_i back
    rw [List.length_dropLast]
    exact iff_of_true (by omega) fun full => full.1 back
  · rename_i notBackspace
    rw [List.length_append, List.length_singleton]
    constructor
    · rintro after ⟨-, full⟩
      omega
    · intro room
      have notFull : line.length + 1 ≠ rxBufferSize := fun full => room ⟨notBackspace, full⟩
      omega

/-- **A character edits the buffered line** while there is room for it. -/
theorem receive_edit (commands : List Command) (holds : Holds s line) (notCr : c ≠ '\r') (notNewline : c ≠ '\n')
    (before : line.length < rxBufferSize) (after : (edit line c).length < rxBufferSize) :
    ∃ u, shellReceiveChar commands s c = some u ∧ Holds u (edit line c) ∧ u.results = s.results ∧
      u.sent = s.sent ++ if c = backspace ∧ line = [] then [] else echoed c := by
  by_cases back : c = backspace
  · subst back
    rw [edit, if_pos rfl]
    simpa using receive_backspace commands holds before
  · rw [if_neg fun h => back h.1]
    rw [edit, if_neg back] at after ⊢
    exact receive_char commands holds (by simpa using after) notCr back notNewline

end Edit

end Maskset.Shell
