import Maskset.Shell.Sections

/-!
# Any stream

A NUL is stored like every other character and ends the argument it is typed into. With the
arguments read as strings the shell records the sections of every stream there is.
-/

namespace Maskset.Shell
set_option autoImplicit false

open Maskset.Logic ShellContext

/-- The arguments of a line, as the handlers find them. -/
def strings (line : List Char) : List (List Char) := (arguments line).map untilNul

/-- What holds after each character of any stream. -/
structure FollowsStrings (commands : List Command) (s : ShellContext) (stream : List Char) (t : ShellContext) :
    Prop where
  holds : Holds t (openLine stream).last
  room : (openLine stream).last.length < rxBufferSize
  noNewline : '\n' ∉ (openLine stream).last
  results : t.results = s.results ++ (sections stream).flatMap fun line => lineEvents commands (strings line)

section Run

variable {commands : List Command} {s t : ShellContext} {stream line : List Char} {c : Char}

theorem strings_eq (noNewline : '\n' ∉ line) : ((runs blank line).map untilNul).take maxArgs = strings line := by
  rw [strings, ← runs_blank noNewline, List.map_take]

theorem noNewline_edit (noNewline : '\n' ∉ line) (notNewline : c ≠ '\n') : '\n' ∉ edit line c := by
  rw [edit]
  split
  · exact fun within => noNewline (List.dropLast_subset _ within)
  · simpa using ⟨noNewline, notNewline.symm⟩

/-- The section that is open ends. -/
theorem FollowsStrings.receive_end (follows : FollowsStrings commands s stream t) (notCr : c ≠ '\r')
    (notBackspace : c ≠ backspace) (ends : c = '\n' ∨ (openLine stream).last.length + 1 = rxBufferSize)
    (grown : sections (stream ++ [c]) = sections stream ++ [(openLine stream).last])
    (fresh : (openLine (stream ++ [c])).last = []) :
    ∃ u, shellReceiveChar commands t c = some u ∧ FollowsStrings commands s (stream ++ [c]) u := by
  obtain ⟨u, step, holds, events, -⟩ := Shell.receive_end commands follows.holds follows.room notCr notBackspace ends
  rw [strings_eq follows.noNewline] at events
  refine ⟨u, step, ?_⟩
  constructor
  · rw [fresh]
    exact holds
  · rw [fresh]
    decide
  · rw [fresh]
    exact List.not_mem_nil
  · rw [grown, events, follows.results, List.flatMap_append, List.flatMap_singleton, List.append_assoc]

/-- It is edited. -/
theorem FollowsStrings.receive_edit (follows : FollowsStrings commands s stream t) (notCr : c ≠ '\r')
    (notNewline : c ≠ '\n') (room : ¬ (c ≠ backspace ∧ (openLine stream).last.length + 1 = rxBufferSize)) :
    ∃ u, shellReceiveChar commands t c = some u ∧ FollowsStrings commands s (stream ++ [c]) u := by
  obtain ⟨same, grown⟩ := sections_snoc_edit notCr notNewline room
  have after := (edit_fits_iff follows.room).2 room
  obtain ⟨u, step, holds, results, -⟩ := Shell.receive_edit commands follows.holds notCr notNewline follows.room after
  refine ⟨u, step, ?_⟩
  constructor
  · rw [grown]
    exact holds
  · rw [grown]
    exact after
  · rw [grown]
    exact noNewline_edit follows.noNewline notNewline
  · rw [same, results]
    exact follows.results

theorem openLine_snoc_cr : openLine (stream ++ ['\r']) = openLine stream ∧
    sections (stream ++ ['\r']) = sections stream := by
  have dropped : received (stream ++ ['\r']) = received stream := received_snoc_cr
  rw [sections, openLine, dropped]
  exact ⟨rfl, rfl⟩

/-- **One more character**, whatever it is. -/
theorem FollowsStrings.receive_char (follows : FollowsStrings commands s stream t) (c : Char) :
    ∃ u, shellReceiveChar commands t c = some u ∧ FollowsStrings commands s (stream ++ [c]) u := by
  by_cases cr : c = '\r'
  · subst cr
    obtain ⟨same, grown⟩ := @openLine_snoc_cr stream
    refine ⟨t, receive_cr commands t, ?_⟩
    constructor
    · rw [same]
      exact follows.holds
    · rw [same]
      exact follows.room
    · rw [same]
      exact follows.noNewline
    · rw [grown]
      exact follows.results
  by_cases newline : c = '\n'
  · subst newline
    apply follows.receive_end cr (by decide) (.inl rfl) sections_snoc_newline
    rw [open_snoc_newline]
  by_cases full : c ≠ backspace ∧ (openLine stream).last.length + 1 = rxBufferSize
  · obtain ⟨grown, fresh⟩ := sections_snoc_full cr newline full.1 full.2
    exact follows.receive_end cr full.1 (.inr full.2) grown fresh
  · exact follows.receive_edit cr newline full

/-- The sections that have ended stay. -/
theorem sections_snoc (stream : List Char) (c : Char) :
    ∃ more, sections (stream ++ [c]) = sections stream ++ more := by
  by_cases cr : c = '\r'
  · subst cr
    exact ⟨[], openLine_snoc_cr.2.trans (List.append_nil _).symm⟩
  by_cases newline : c = '\n'
  · subst newline
    exact ⟨_, sections_snoc_newline⟩
  by_cases full : c ≠ backspace ∧ (openLine stream).last.length + 1 = rxBufferSize
  · exact ⟨_, (sections_snoc_full cr newline full.1 full.2).1⟩
  · exact ⟨[], (sections_snoc_edit cr newline full).1.trans (List.append_nil _).symm⟩

/-- What is recorded for it: the events of the sections that it ends. -/
theorem FollowsStrings.receive (follows : FollowsStrings commands s stream t) (c : Char) :
    ∃ u more, shellReceiveChar commands t c = some u ∧ FollowsStrings commands s (stream ++ [c]) u ∧
      sections (stream ++ [c]) = sections stream ++ more ∧
      u.results = t.results ++ more.flatMap fun line => lineEvents commands (strings line) := by
  obtain ⟨more, grown⟩ := sections_snoc stream c
  obtain ⟨u, step, after⟩ := follows.receive_char c
  refine ⟨u, more, step, after, grown, ?_⟩
  rw [after.results, grown, List.flatMap_append, ← List.append_assoc, ← follows.results]

end Run

/-- After `shell_boot` nothing has been typed. -/
theorem followsStrings_boot (commands : List Command) (s : ShellContext) :
    FollowsStrings commands s [] (shellBoot s) := by
  obtain ⟨holds, results, -⟩ := holds_boot s
  constructor
  · exact holds
  · decide
  · exact List.not_mem_nil
  · rw [results]
    exact (List.append_nil _).symm

/-- **The shell records the sections of every stream**, their arguments read as strings. -/
theorem receiveAll_strings (commands : List Command) (s : ShellContext) (stream : List Char) :
    ∃ t, receiveAll commands (shellBoot s) stream = some t ∧ FollowsStrings commands s stream t := by
  have able : ∀ c ∈ stream, True := fun _ _ => trivial
  exact Machine.total (followsStrings_boot commands s) (fun _ _ c follows _ => follows.receive_char c) stream able

end Maskset.Shell
