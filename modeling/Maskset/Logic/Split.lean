import Mathlib.Data.List.Basic

/-!
# Splitting a list

The maximal runs of elements that are no separators, collected in one pass, and how
the pieces between separators change when the list grows at its end.
-/

namespace Maskset.Logic
set_option autoImplicit false

variable {α : Type}

/-- The maximal runs of elements outside `sep`. -/
def runs (sep : α → Bool) (l : List α) : List (List α) := (l.splitOnP sep).filter (!·.isEmpty)

/-- The runs, with `cur` what is collected of the one that is open. -/
def collect (sep : α → Bool) : List α → List α → List (List α)
  | cur, [] => [cur].filter (!·.isEmpty)
  | cur, a :: l => if sep a then [cur].filter (!·.isEmpty) ++ collect sep [] l else collect sep (cur ++ [a]) l

theorem collect_eq (sep : α → Bool) (cur l : List α) :
    collect sep cur l = ((l.splitOnP sep).modifyHead (cur ++ ·)).filter (!·.isEmpty) := by
  induction l generalizing cur with
  | nil => simp [collect]
  | cons a l ih =>
    rw [collect, List.splitOnP_cons_eq_if_modifyHead]
    by_cases h : sep a
    · rw [if_pos h, if_pos h, ih, ← List.filter_append]
      congr 1
      cases l.splitOnP sep <;> simp
    · rw [if_neg h, if_neg h, ih]
      congr 1
      cases l.splitOnP sep <;> simp

theorem collect_nil (sep : α → Bool) (l : List α) : collect sep [] l = runs sep l := by
  rw [collect_eq, runs]
  congr 1
  cases l.splitOnP sep <;> simp

/-- A run is made of elements of the list. -/
theorem subset_of_mem_collect {sep : α → Bool} {cur l run : List α} (within : run ∈ collect sep cur l) :
    run ⊆ cur ++ l := by
  have of_last {run cur : List α} (within : run ∈ [cur].filter (!·.isEmpty)) : run = cur :=
    List.mem_singleton.1 (List.mem_of_mem_filter within)
  induction l generalizing cur with
  | nil =>
    rw [of_last within]
    exact List.subset_append_left cur []
  | cons a l ih =>
    rw [collect] at within
    split at within
    · rcases List.mem_append.1 within with last | later
      · rw [of_last last]
        exact List.subset_append_left cur _
      · exact List.subset_append_of_subset_right cur (List.subset_cons_of_subset a (ih later))
    · rw [List.append_cons]
      exact ih within

theorem subset_of_mem_runs {sep : α → Bool} {l run : List α} (within : run ∈ runs sep l) : run ⊆ l := by
  rw [← collect_nil] at within
  exact subset_of_mem_collect within

theorem runs_congr {sep sep' : α → Bool} {l : List α} (same : ∀ a ∈ l, sep a = sep' a) :
    runs sep l = runs sep' l := by
  suffices split : l.splitOnP sep = l.splitOnP sep' by rw [runs, runs, split]
  induction l with
  | nil => rfl
  | cons a l ih =>
    rw [List.splitOnP_cons_eq_if_modifyHead, List.splitOnP_cons_eq_if_modifyHead, same a (by simp),
      ih fun b within => same b (by simp [within])]

section Pieces

variable [BEq α]

/-- The pieces that a separator ends. -/
def ended (sep : α) (l : List α) : List (List α) := (l.splitOn sep).dropLast

/-- The piece behind the last separator. -/
def pending (sep : α) (l : List α) : List α := (l.splitOn sep).getLastD []

variable {sep a : α} {l : List α}

theorem splitOn_eq_ended : l.splitOn sep = ended sep l ++ [pending sep l] := by
  rw [ended, pending, List.getLastD_eq_getLast?, List.getLast?_eq_some_getLast (List.splitOn_ne_nil sep l)]
  exact (List.dropLast_concat_getLast _).symm

theorem ended_cons : ended sep (a :: l) =
    if a == sep then [] :: ended sep l else ((ended sep l ++ [pending sep l]).modifyHead (a :: ·)).dropLast := by
  rw [ended, List.splitOn_cons_eq_if_modifyHead, splitOn_eq_ended]
  split
  · rw [List.dropLast_cons_of_ne_nil (by simp), List.dropLast_concat]
  · rfl

theorem pending_cons : pending sep (a :: l) =
    if a == sep then pending sep l else ((ended sep l ++ [pending sep l]).modifyHead (a :: ·)).getLastD [] := by
  rw [pending, List.splitOn_cons_eq_if_modifyHead, splitOn_eq_ended]
  split
  · rw [← List.cons_append, List.getLastD_concat]
  · rfl

variable [LawfulBEq α]

theorem splitOn_snoc_self : (l ++ [sep]).splitOn sep = l.splitOn sep ++ [[]] :=
  List.splitOn_append_cons_self l []

theorem splitOn_snoc (ne : a ≠ sep) : (l ++ [a]).splitOn sep = ended sep l ++ [pending sep l ++ [a]] := by
  induction l with
  | nil => exact List.splitOn_eq_singleton (by simpa using ne.symm)
  | cons b l ih =>
    rw [List.cons_append, List.splitOn_cons_eq_if_modifyHead, ih, ended_cons, pending_cons]
    split
    · rfl
    · cases ended sep l with
      | nil => rfl
      | cons piece rest =>
        have whole : ((piece :: rest) ++ [pending sep l]).modifyHead (b :: ·) =
          ((b :: piece) :: rest) ++ [pending sep l] := rfl
        rw [whole, List.dropLast_concat, List.getLastD_concat]
        rfl

@[simp] theorem ended_snoc_self : ended sep (l ++ [sep]) = ended sep l ++ [pending sep l] := by
  rw [ended, splitOn_snoc_self, List.dropLast_concat, splitOn_eq_ended]

@[simp] theorem pending_snoc_self : pending sep (l ++ [sep]) = [] := by
  rw [pending, splitOn_snoc_self, List.getLastD_concat]

theorem ended_snoc (ne : a ≠ sep) : ended sep (l ++ [a]) = ended sep l := by
  rw [ended, splitOn_snoc ne, List.dropLast_concat]

theorem pending_snoc (ne : a ≠ sep) : pending sep (l ++ [a]) = pending sep l ++ [a] := by
  rw [pending, splitOn_snoc ne, List.getLastD_concat]

end Pieces

end Maskset.Logic
