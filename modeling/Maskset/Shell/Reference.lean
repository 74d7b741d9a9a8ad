import Maskset.Shell.Sections

/-!
# The reference parse

What the user entered, read off the stream: split at `'\n'`, each piece edited, each line
split into its arguments. A line that fits the buffer is one section, so the shell records
exactly this for every stream whose lines fit.
-/

namespace Maskset.Shell
set_option autoImplicit false

open Maskset.Logic ShellContext

/-- The lines that were entered. -/
def entered (stream : List Char) : List (List Char) := (ended '\n' (received stream)).map edited

/-- The line that is still being edited. -/
def editing (stream : List Char) : List Char := edited (pending '\n' (received stream))

/-- What is recorded for a stream. -/
def reference (commands : List Command) (stream : List Char) : List Event :=
  (entered stream).flatMap fun line => lineEvents commands (arguments line)

section Snoc

variable {stream : List Char} {c : Char}

theorem entered_snoc_newline : entered (stream ++ ['\n']) = entered stream ++ [editing stream] := by
  rw [entered, received_snoc (by decide), ended_snoc_self, List.map_append]
  rfl

theorem editing_snoc_newline : editing (stream ++ ['\n']) = [] := by
  rw [editing, received_snoc (by decide), pending_snoc_self]
  rfl

theorem entered_snoc (notCr : c ≠ '\r') (notNewline : c ≠ '\n') : entered (stream ++ [c]) = entered stream := by
  rw [entered, received_snoc notCr, ended_snoc notNewline]
  rfl

theorem editing_snoc (notCr : c ≠ '\r') (notNewline : c ≠ '\n') :
    editing (stream ++ [c]) = edit (editing stream) c := by
  rw [editing, received_snoc notCr, pending_snoc notNewline, edited, List.foldl_append]
  rfl

/-- Lines that fit are not cut. -/
theorem sections_eq_entered (fits : ∀ start, start <+: stream → (editing start).length < rxBufferSize) :
    sections stream = entered stream ∧ (openLine stream).last = editing stream := by
  induction stream using List.reverseRecOn with
  | nil => exact ⟨rfl, rfl⟩
  | append_singleton stream c ih =>
    obtain ⟨same, last⟩ := ih fun start inside => fits start (inside.trans (List.prefix_append _ _))
    have before := fits stream (List.prefix_append _ _)
    have after := fits (stream ++ [c]) (List.prefix_refl _)
    by_cases cr : c = '\r'
    · subst cr
      have dropped : received (stream ++ ['\r']) = received stream := received_snoc_cr
      rw [sections, openLine, entered, editing, dropped]
      exact ⟨same, last⟩
    by_cases newline : c = '\n'
    · subst newline
      rw [sections_snoc_newline, open_snoc_newline, entered_snoc_newline, editing_snoc_newline, same, last]
      exact ⟨rfl, rfl⟩
    · rw [editing_snoc cr newline] at after
      have room : ¬ (c ≠ backspace ∧ (openLine stream).last.length + 1 = rxBufferSize) := by
        rw [last]
        exact (edit_fits_iff before).1 after
      obtain ⟨grown, edited⟩ := sections_snoc_edit cr newline room
      rw [grown, edited, entered_snoc cr newline, editing_snoc cr newline, same, last]
      exact ⟨rfl, rfl⟩

end Snoc

/-- **The shell records the reference parse** of every stream without NUL whose edited
line is always shorter than the buffer: after `shell_boot`, whatever the table, the
handlers and the state before. -/
theorem shell_eq_reference (commands : List Command) (s : ShellContext) (stream : List Char)
    (noNul : '\x00' ∉ stream) (fits : ∀ start, start <+: stream → (editing start).length < rxBufferSize) :
    ∃ t, receiveAll commands (shellBoot s) stream = some t ∧
      t.results = s.results ++ reference commands stream := by
  obtain ⟨t, run, follows⟩ := receiveAll_sections commands s stream noNul
  refine ⟨t, run, ?_⟩
  rw [follows.results, (sections_eq_entered fits).1]
  rfl

/-- A corrected line with a double space, and an empty one. -/
theorem shell_eq_reference_help :
    ∃ t, receiveAll [⟨"help".toList, fun _ s => ⟨"ok\n".toList, s.rxBuffer⟩⟩]
        (shellBoot ⟨false, 0, .replicate rxBufferSize '\x00', []⟩) "hx\x08elp  me\n\n".toList = some t ∧
      t.results = [.line ["help".toList, "me".toList], .run 0 ["help".toList, "me".toList], .line []] := by
  have short : ∀ start ∈ "hx\x08elp  me\n\n".toList.inits, (editing start).length < rxBufferSize := by decide
  obtain ⟨t, run, results⟩ := shell_eq_reference [⟨"help".toList, fun _ s => ⟨"ok\n".toList, s.rxBuffer⟩⟩]
    ⟨false, 0, .replicate rxBufferSize '\x00', []⟩ "hx\x08elp  me\n\n".toList (by decide)
    fun start inside => short start ((List.mem_inits _ _).2 inside)
  exact ⟨t, run, results.trans (by decide)⟩

end Maskset.Shell
