import Maskset.Shell.Lines
import Maskset.Logic.Machine

/-!
# Sections

A line that fills the buffer is ended there: the character that would fill it takes the
place of the line end, and what the user goes on typing is a line of its own. The shell
processes the sections the lines are cut into, for every stream without NUL.
-/

namespace Maskset.Shell
set_option autoImplicit false

open Maskset.Logic ShellContext

/-- The sections of a line that are full, and the one that is being edited. -/
structure Sections where
  full : List (List Char)
  last : List Char
deriving DecidableEq

namespace Sections

def all (sections : Sections) : List (List Char) := sections.full ++ [sections.last]

/-- A character edits the last section, or ends it in place of a line end. -/
def cut (sections : Sections) (c : Char) : Sections :=
  if c ≠ backspace ∧ sections.last.length + 1 = rxBufferSize then ⟨sections.all, []⟩
  else ⟨sections.full, edit sections.last c⟩

end Sections

/-- The sections of a piece of the stream between two newlines. -/
def sectioned (piece : List Char) : Sections := piece.foldl Sections.cut ⟨[], []⟩

/-- The sections of the line that is still being edited. -/
def openLine (stream : List Char) : Sections := sectioned (pending '\n' (received stream))

/-- The sections that have ended, of all lines. -/
def sections (stream : List Char) : List (List Char) :=
  (ended '\n' (received stream)).flatMap (fun piece => (sectioned piece).all) ++ (openLine stream).full

section Snoc

variable {stream piece : List Char} {c : Char}

theorem sectioned_snoc : sectioned (piece ++ [c]) = (sectioned piece).cut c := by
  rw [sectioned, List.foldl_append]
  rfl

theorem open_snoc_newline : openLine (stream ++ ['\n']) = ⟨[], []⟩ := by
  rw [openLine, received_snoc (by decide), pending_snoc_self]
  rfl

theorem sections_snoc_newline : sections (stream ++ ['\n']) = sections stream ++ [(openLine stream).last] := by
  rw [sections, open_snoc_newline, received_snoc (by decide), ended_snoc_self, List.flatMap_append,
    List.flatMap_singleton, List.append_nil, ← openLine, Sections.all, ← List.append_assoc]
  rfl

theorem open_snoc (notCr : c ≠ '\r') (notNewline : c ≠ '\n') : openLine (stream ++ [c]) = (openLine stream).cut c := by
  rw [openLine, received_snoc notCr, pending_snoc notNewline, sectioned_snoc]
  rfl

theorem ended_received_snoc (notCr : c ≠ '\r') (notNewline : c ≠ '\n') :
    ended '\n' (received (stream ++ [c])) = ended '\n' (received stream) := by
  rw [received_snoc notCr, ended_snoc notNewline]

/-- A character that fills the buffer ends the section. -/
theorem sections_snoc_full (notCr : c ≠ '\r') (notNewline : c ≠ '\n') (notBackspace : c ≠ backspace)
    (full : (openLine stream).last.length + 1 = rxBufferSize) :
    sections (stream ++ [c]) = sections stream ++ [(openLine stream).last] ∧ (openLine (stream ++ [c])).last = [] := by
  have cut : openLine (stream ++ [c]) = ⟨(openLine stream).all, []⟩ := by
    rw [open_snoc notCr notNewline, Sections.cut, if_pos ⟨notBackspace, full⟩]
  rw [sections, cut, ended_received_snoc notCr notNewline, Sections.all, ← List.append_assoc]
  exact ⟨rfl, rfl⟩

/-- Any other character edits it. -/
theorem sections_snoc_edit (notCr : c ≠ '\r') (notNewline : c ≠ '\n')
    (room : ¬ (c ≠ backspace ∧ (openLine stream).last.length + 1 = rxBufferSize)) :
    sections (stream ++ [c]) = sections stream ∧ (openLine (stream ++ [c])).last = edit (openLine stream).last c := by
  have cut : openLine (stream ++ [c]) = ⟨(openLine stream).full, edit (openLine stream).last c⟩ := by
    rw [open_snoc notCr notNewline, Sections.cut, if_neg room]
  rw [sections, cut, ended_received_snoc notCr notNewline]
  exact ⟨rfl, rfl⟩

end Snoc

/-- What holds after each character of the stream. -/
structure FollowsSections (commands : List Command) (s : ShellContext) (stream : List Char) (t : ShellContext) :
    Prop where
  holds : Holds t (openLine stream).last
  room : (openLine stream).last.length < rxBufferSize
  clean : Clean (openLine stream).last
  results : t.results = s.results ++ (sections stream).flatMap fun line => lineEvents commands (arguments line)

section Run

variable {commands : List Command} {s t : ShellContext} {stream : List Char} {c : Char}

/-- The section that is open ends, with a newline or with the character that fills the buffer. -/
theorem FollowsSections.receive_end (follows : FollowsSections commands s stream t) (notCr : c ≠ '\r')
    (notBackspace : c ≠ backspace) (ends : c = '\n' ∨ (openLine stream).last.length + 1 = rxBufferSize)
    (grown : sections (stream ++ [c]) = sections stream ++ [(openLine stream).last])
    (fresh : (openLine (stream ++ [c])).last = []) :
    ∃ u, shellReceiveChar commands t c = some u ∧ FollowsSections commands s (stream ++ [c]) u := by
  obtain ⟨u, step, holds, events, -⟩ := Shell.receive_end commands follows.holds follows.room notCr notBackspace ends
  rw [map_untilNul_runs follows.clean.noNul, runs_blank follows.clean.noNewline] at events
  refine ⟨u, step, ?_⟩
  constructor
  · rw [fresh]
    exact holds
  · rw [fresh]
    decide
  · rw [fresh]
    exact ⟨List.not_mem_nil, List.not_mem_nil⟩
  · rw [grown, events, follows.results, List.flatMap_append, List.flatMap_singleton, List.append_assoc]

theorem FollowsSections.receive_edit (follows : FollowsSections commands s stream t) (notNul : c ≠ '\x00')
    (notCr : c ≠ '\r') (notNewline : c ≠ '\n')
    (room : ¬ (c ≠ backspace ∧ (openLine stream).last.length + 1 = rxBufferSize)) :
    ∃ u, shellReceiveChar commands t c = some u ∧ FollowsSections commands s (stream ++ [c]) u := by
  obtain ⟨same, grown⟩ := sections_snoc_edit notCr notNewline room
  have after := (edit_fits_iff follows.room).2 room
  obtain ⟨u, step, holds, results, -⟩ := Shell.receive_edit commands follows.holds notCr notNewline follows.room after
  refine ⟨u, step, ?_⟩
  constructor
  · rw [grown]
    exact holds
  · rw [grown]
    exact after
  · rw [grown]
    exact follows.clean.edit notNul notNewline
  · rw [same, results]
    exact follows.results

/-- One more character. -/
theorem FollowsSections.receive (follows : FollowsSections commands s stream t) (notNul : c ≠ '\x00') :
    ∃ u, shellReceiveChar commands t c = some u ∧ FollowsSections commands s (stream ++ [c]) u := by
  by_cases cr : c = '\r'
  · subst cr
    obtain ⟨holds, room, clean, results⟩ := follows
    have same : received (stream ++ ['\r']) = received stream := received_snoc_cr
    refine ⟨t, receive_cr commands t, ?_⟩
    constructor
    · rw [openLine, same]
      exact holds
    · rw [openLine, same]
      exact room
    · rw [openLine, same]
      exact clean
    · rw [sections, openLine, same]
      exact results
  by_cases newline : c = '\n'
  · subst newline
    apply follows.receive_end cr (by decide) (.inl rfl) sections_snoc_newline
    rw [open_snoc_newline]
  by_cases full : c ≠ backspace ∧ (openLine stream).last.length + 1 = rxBufferSize
  · obtain ⟨grown, fresh⟩ := sections_snoc_full cr newline full.1 full.2
    exact follows.receive_end cr full.1 (.inr full.2) grown fresh
  · exact follows.receive_edit notNul cr newline full

end Run

/-- The shell records the sections of every stream without NUL. -/
theorem receiveAll_sections (commands : List Command) (s : ShellContext) (stream : List Char)
    (noNul : '\x00' ∉ stream) :
    ∃ t, receiveAll commands (shellBoot s) stream = some t ∧ FollowsSections commands s stream t := by
  obtain ⟨holds, results, -⟩ := holds_boot s
  have start : FollowsSections commands s [] (shellBoot s) := by
    constructor
    · exact holds
    · decide
    · exact ⟨List.not_mem_nil, List.not_mem_nil⟩
    · rw [results]
      exact (List.append_nil _).symm
  apply Machine.total start (fun _ _ _ follows notNul => follows.receive notNul)
  rintro c within rfl
  exact noNul within

end Maskset.Shell
