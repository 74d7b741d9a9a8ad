import Mathlib.Order.Bounds.Basic
import Mathlib.Algebra.Order.Field.Basic
import Mathlib.Tactic.Ring
import Mathlib.Tactic.FieldSimp

/-!
# Bisection and linear interpolation

A bisection finds where a predicate that holds up to some index ceases to hold (`Cut`).
Interpolation between support points takes the chord of the segment that such a cut picks,
and the outermost ordinates beyond the points; it is monotone when the ordinates are.
-/

namespace Maskset.Logic
set_option autoImplicit false

/-! ## Bisection -/

/-- The index a bisection between `lo` and `hi` for the end of `p` comes to. -/
def bisect (p : Nat → Prop) [DecidablePred p] (lo hi : Nat) : Nat :=
  if lo < hi then
    if p ((lo + hi) / 2) then bisect p ((lo + hi) / 2 + 1) hi else bisect p lo ((lo + hi) / 2)
  else lo
termination_by hi - lo

/-- Of the indices below `n`, those below `i` have `p` and the others do not. -/
structure Cut (p : Nat → Prop) (n i : Nat) : Prop where
  inRange : i ≤ n
  before : ∀ j < i, p j
  behind : ∀ j, i ≤ j → j < n → ¬ p j

section Bisection

variable {p q : Nat → Prop} {n i j lo hi : Nat}

/-- A bisection keeps `p` below `lo` and its negation from `hi` on. -/
theorem bisect_cut [DecidablePred p] (closed : ∀ i j, i ≤ j → j < n → p j → p i) (order : lo ≤ hi) (inRange : hi ≤ n)
    (before : ∀ j < lo, p j) (behind : ∀ j, hi ≤ j → j < n → ¬ p j) : Cut p n (bisect p lo hi) := by
  fun_induction bisect p lo hi with
  | case1 lo hi more low ih =>
    refine ih (by omega) inRange ?_ behind
    intro j below
    exact closed j _ (by omega) (by omega) low
  | case2 lo hi more high ih =>
    refine ih (by omega) (by omega) before ?_
    intro j above inside here
    exact high (closed _ j above inside here)
  | case3 lo hi finished =>
    obtain rfl : lo = hi := by omega
    exact ⟨inRange, before, behind⟩

/-- The cut is the least index behind which `p` does not hold. -/
theorem Cut.isLeast (cut : Cut p n i) : IsLeast {k | ∀ j, k ≤ j → j < n → ¬ p j} i := by
  refine ⟨cut.behind, ?_⟩
  intro k behind
  by_contra less
  have below : k < i := Nat.lt_of_not_le less
  exact behind k (Nat.le_refl _) (Nat.lt_of_lt_of_le below cut.inRange) (cut.before k below)

theorem Cut.mono (cut : Cut p n i) (cut' : Cut q n j) (weaker : ∀ k, p k → q k) : i ≤ j := by
  by_contra less
  have below : j < i := Nat.lt_of_not_le less
  exact cut'.behind j (Nat.le_refl _) (Nat.lt_of_lt_of_le below cut.inRange) (weaker j (cut.before j below))

theorem Cut.unique (cut : Cut p n i) (cut' : Cut p n j) : i = j :=
  Nat.le_antisymm (cut.mono cut' fun _ => id) (cut'.mono cut fun _ => id)

/-- Inside the range the cut of what is smaller than `x` has `x` between its neighbours. -/
theorem Cut.segment {α : Type} [LinearOrder α] {xs : Nat → α} {x : α} (cut : Cut (fun j => xs j < x) n i)
    (left : i ≠ 0) (right : i ≠ n) : xs (i - 1) < x ∧ x ≤ xs i := by
  have inRange := cut.inRange
  exact ⟨cut.before _ (by omega), not_lt.1 (cut.behind i (Nat.le_refl _) (by omega))⟩

end Bisection

/-! ## Chords -/

variable {K : Type} [Field K]

/-- The line through `(x0, y0)` and `(x1, y1)`. -/
def chord (x0 y0 x1 y1 x : K) : K := y0 + (y1 - y0) / (x1 - x0) * (x - x0)

section Chord

variable {x0 y0 x1 y1 x : K}

theorem chord_left : chord x0 y0 x1 y1 x0 = y0 := by
  rw [chord, sub_self, mul_zero, add_zero]

theorem chord_right (different : x1 - x0 ≠ 0) : chord x0 y0 x1 y1 x1 = y1 := by
  rw [chord, div_mul_cancel₀ _ different]
  ring

theorem chord_neg : chord x0 (-y0) x1 (-y1) x = -chord x0 y0 x1 y1 x := by
  unfold chord
  ring

variable [LinearOrder K] [IsStrictOrderedRing K]

theorem chord_mono (distinct : x0 < x1) (rising : y0 ≤ y1) : Monotone (chord x0 y0 x1 y1) := by
  intro x x' order
  have slope : 0 ≤ (y1 - y0) / (x1 - x0) := div_nonneg (sub_nonneg.2 rising) (sub_nonneg.2 distinct.le)
  unfold chord
  apply add_le_add_right
  exact mul_le_mul_of_nonneg_left (sub_le_sub_right order x0) slope

/-- Between the two points a rising chord stays between the two ordinates. -/
theorem chord_bounds (distinct : x0 < x1) (rising : y0 ≤ y1) (low : x0 ≤ x) (high : x ≤ x1) :
    y0 ≤ chord x0 y0 x1 y1 x ∧ chord x0 y0 x1 y1 x ≤ y1 := by
  have mono := chord_mono distinct rising
  constructor
  · calc y0 = chord x0 y0 x1 y1 x0 := chord_left.symm
      _ ≤ chord x0 y0 x1 y1 x := mono low
  · calc chord x0 y0 x1 y1 x ≤ chord x0 y0 x1 y1 x1 := mono high
      _ = y1 := chord_right (sub_ne_zero.2 distinct.ne')

theorem chord_mem (distinct : x0 < x1) (low : x0 ≤ x) (high : x ≤ x1) :
    min y0 y1 ≤ chord x0 y0 x1 y1 x ∧ chord x0 y0 x1 y1 x ≤ max y0 y1 := by
  rcases le_total y0 y1 with rising | falling
  · rw [min_eq_left rising, max_eq_right rising]
    exact chord_bounds distinct rising low high
  · obtain ⟨lower, upper⟩ := chord_bounds distinct (neg_le_neg falling) low high
    rw [chord_neg] at lower upper
    rw [min_eq_right falling, max_eq_left falling]
    exact ⟨neg_le_neg_iff.1 upper, neg_le_neg_iff.1 lower⟩

end Chord

/-! ## Interpolation -/

/-- The value at `x` when the cut of the abscissae below `x` is `i`. -/
def interpolant (n : Nat) (xs ys : Nat → K) (i : Nat) (x : K) : K :=
  if i = 0 then ys 0 else if i = n then ys (n - 1) else chord (xs (i - 1)) (ys (i - 1)) (xs i) (ys i) x

section Interpolant

variable {n i i' : Nat} {xs ys : Nat → K} {x x' : K}

theorem interpolant_neg : interpolant n xs (fun j => -ys j) i x = -interpolant n xs ys i x := by
  unfold interpolant
  split
  · rfl
  split
  · rfl
  · exact chord_neg

variable [LinearOrder K]

theorem interpolant_first (cut : Cut (fun j => xs j < x) n i) (before : x ≤ xs 0) :
    interpolant n xs ys i x = ys 0 := by
  have first : i = 0 := by
    by_contra some
    exact absurd (cut.before 0 (Nat.pos_of_ne_zero some)) (not_lt.2 before)
  exact if_pos first

theorem interpolant_last (cut : Cut (fun j => xs j < x) n i) (some : 0 < n) (behind : xs (n - 1) < x) :
    interpolant n xs ys i x = ys (n - 1) := by
  have last : i = n := by
    by_contra less
    have inRange := cut.inRange
    exact cut.behind (n - 1) (by omega) (by omega) behind
  subst last
  rw [interpolant, if_neg (by omega), if_pos rfl]

/-- At the leftmost point with the abscissa its ordinate is taken. -/
theorem interpolant_node (cut : Cut (fun j => xs j < xs i') n i) (inRange : i' < n)
    (leftmost : ∀ j < i', xs j < xs i') : interpolant n xs ys i (xs i') = ys i' := by
  have here : i = i' := by
    rcases Nat.lt_trichotomy i i' with less | same | greater
    · exact absurd (leftmost i less) (cut.behind i (Nat.le_refl _) (by omega))
    · exact same
    · exact absurd (cut.before i' greater) (lt_irrefl _)
  subst here
  unfold interpolant
  split
  · rename_i first
    rw [first]
  · rename_i notFirst
    rw [if_neg (by omega)]
    exact chord_right (sub_ne_zero.2 (leftmost _ (by omega)).ne')

variable [IsStrictOrderedRing K]

/-- Between two neighbours the value lies between their ordinates. -/
theorem interpolant_between (cut : Cut (fun j => xs j < x) n i) (left : i ≠ 0) (right : i ≠ n) :
    min (ys (i - 1)) (ys i) ≤ interpolant n xs ys i x ∧ interpolant n xs ys i x ≤ max (ys (i - 1)) (ys i) := by
  obtain ⟨low, high⟩ := cut.segment left right
  rw [interpolant, if_neg left, if_neg right]
  exact chord_mem (lt_of_lt_of_le low high) low.le high

theorem interpolant_le (rising : ∀ j k, j ≤ k → k < n → ys j ≤ ys k) (cut : Cut (fun j => xs j < x) n i)
    (right : i < n) : interpolant n xs ys i x ≤ ys i := by
  by_cases left : i = 0
  · subst left
    exact le_of_eq (if_pos rfl)
  · have between := (@interpolant_between K _ n i xs ys x _ _ cut left right.ne).2
    rwa [max_eq_right (rising _ _ (Nat.sub_le i 1) right)] at between

theorem le_interpolant (rising : ∀ j k, j ≤ k → k < n → ys j ≤ ys k) (cut : Cut (fun j => xs j < x) n i)
    (left : i ≠ 0) : ys (i - 1) ≤ interpolant n xs ys i x := by
  by_cases right : i = n
  · subst right
    rw [interpolant, if_neg left, if_pos rfl]
  · have inside : i < n := lt_of_le_of_ne cut.inRange right
    have between := (@interpolant_between K _ n i xs ys x _ _ cut left right).1
    rwa [min_eq_left (rising _ _ (Nat.sub_le i 1) inside)] at between

/-- **Rising ordinates give a rising interpolant**, across all segments. -/
theorem interpolant_mono (rising : ∀ j k, j ≤ k → k < n → ys j ≤ ys k) (cut : Cut (fun j => xs j < x) n i)
    (cut' : Cut (fun j => xs j < x') n i') (order : x ≤ x') :
    interpolant n xs ys i x ≤ interpolant n xs ys i' x' := by
  have inRange := cut'.inRange
  have cuts : i ≤ i' := cut.mono cut' fun _ below => lt_of_lt_of_le below order
  rcases cuts.eq_or_lt with rfl | less
  · -- one segment, or one of the ends
    by_cases left : i = 0
    · rw [interpolant, interpolant, if_pos left, if_pos left]
    by_cases right : i = n
    · rw [interpolant, interpolant, if_neg left, if_pos right, if_neg left, if_pos right]
    · obtain ⟨low, high⟩ := cut.segment left right
      have inside : i < n := lt_of_le_of_ne inRange right
      rw [interpolant, interpolant, if_neg left, if_neg right, if_neg left, if_neg right]
      exact chord_mono (lt_of_lt_of_le low high) (rising _ _ (Nat.sub_le i 1) inside) order
  · calc interpolant n xs ys i x ≤ ys i := interpolant_le rising cut (by omega)
      _ ≤ ys (i' - 1) := rising _ _ (by omega) (by omega)
      _ ≤ interpolant n xs ys i' x' := le_interpolant rising cut' (by omega)

/-- Falling ordinates give a falling one. -/
theorem interpolant_anti (falling : ∀ j k, j ≤ k → k < n → ys k ≤ ys j) (cut : Cut (fun j => xs j < x) n i)
    (cut' : Cut (fun j => xs j < x') n i') (order : x ≤ x') :
    interpolant n xs ys i' x' ≤ interpolant n xs ys i x := by
  have rising : ∀ j k, j ≤ k → k < n → -ys j ≤ -ys k := by
    intro j k before inside
    exact neg_le_neg (falling j k before inside)
  have mono := interpolant_mono rising cut cut' order
  rw [interpolant_neg, interpolant_neg] at mono
  exact neg_le_neg_iff.1 mono

end Interpolant

end Maskset.Logic
