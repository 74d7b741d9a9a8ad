import Mathlib.Algebra.Order.Group.Abs
import Mathlib.Tactic.Linarith
import Maskset.Logic.Interpolation

/-!
# Reading an interpolation backwards

A chord seen from the other axis is the inverse chord, and so is the interpolant of points
that rise strictly in both coordinates; beyond the points the inverse gives the end that is
nearer. Points that fall are points that rise, seen from the other end.
-/

namespace Maskset.Logic
set_option autoImplicit false

section Chord

variable {K : Type} [Field K] {x0 y0 x1 y1 x : K}

/-- By the part of the way from one point to the other. -/
theorem chord_eq : chord x0 y0 x1 y1 x = y0 + (y1 - y0) * ((x - x0) / (x1 - x0)) := by
  unfold chord
  ring

theorem chord_swap (different : x1 - x0 ≠ 0) : chord x1 y1 x0 y0 x = chord x0 y0 x1 y1 x := by
  have different' : x0 - x1 ≠ 0 := fun same => different (by rw [← neg_sub, same, neg_zero])
  unfold chord
  field_simp
  ring

theorem chord_reflect : chord (-x0) y0 (-x1) y1 (-x) = chord x0 y0 x1 y1 x := by
  unfold chord
  rw [neg_sub_neg, neg_sub_neg, ← neg_sub x1, ← neg_sub x, div_neg, neg_mul_neg]

/-- **The chord the other way round.** -/
theorem chord_chord (different : x1 - x0 ≠ 0) (different' : y1 - y0 ≠ 0) :
    chord y0 x0 y1 x1 (chord x0 y0 x1 y1 x) = x := by
  unfold chord
  field_simp
  ring

variable [LinearOrder K] [IsStrictOrderedRing K]

theorem chord_strictMono (distinct : x0 < x1) (rising : y0 < y1) : StrictMono (chord x0 y0 x1 y1) := by
  intro x x' order
  have slope : 0 < (y1 - y0) / (x1 - x0) := div_pos (sub_pos.2 rising) (sub_pos.2 distinct)
  unfold chord
  apply add_lt_add_right
  exact mul_lt_mul_of_pos_left (sub_lt_sub_right order x0) slope

end Chord

/-! ## Interpolants -/

/-- Numbers that rise strictly. -/
def Rises {K : Type} [LinearOrder K] (n : Nat) (xs : Nat → K) : Prop := ∀ j k, j < k → k < n → xs j < xs k

section Rises

variable {K : Type} [LinearOrder K] {n i : Nat} {xs : Nat → K} {x : K}

theorem Rises.le (rises : Rises n xs) {j k : Nat} (order : j ≤ k) (inRange : k < n) : xs j ≤ xs k := by
  rcases order.eq_or_lt with rfl | less
  · exact le_rfl
  · exact (rises j k less inRange).le

/-- The cut, by the segment that holds the place. -/
theorem Rises.cut (rises : Rises n xs) (inRange : i < n) (below : ∀ j, j + 1 = i → xs j < x) (above : x ≤ xs i) :
    Cut (fun j => xs j < x) n i := by
  constructor
  · exact inRange.le
  · intro j before
    obtain ⟨k, rfl⟩ : ∃ k, k + 1 = i := ⟨i - 1, by omega⟩
    exact lt_of_le_of_lt (rises.le (Nat.le_of_lt_succ before) (by omega)) (below k rfl)
  · intro j behind inside here
    exact absurd here (not_lt.2 (above.trans (rises.le behind inside)))

theorem Rises.exists_cut (rises : Rises n xs) (x : K) : ∃ i, Cut (fun j => xs j < x) n i := by
  refine ⟨bisect (fun j => xs j < x) 0 n, bisect_cut ?_ (Nat.zero_le n) (Nat.le_refl n) ?_ ?_⟩
  · intro i j order inRange below
    exact lt_of_le_of_lt (rises.le order inRange) below
  · intro j before
    exact absurd before (Nat.not_lt_zero j)
  · intro j behind inRange
    exact absurd inRange (Nat.not_lt.2 behind)

end Rises

section Interpolant

variable {K : Type} [Field K] {n i i' : Nat} {xs ys : Nat → K} {x : K}

/-- Only the points count. -/
theorem interpolant_congr {xs' ys' : Nat → K} (inRange : i ≤ n) (some : 0 < n) (same : ∀ j < n, xs j = xs' j)
    (same' : ∀ j < n, ys j = ys' j) : interpolant n xs ys i x = interpolant n xs' ys' i x := by
  unfold interpolant
  split
  · exact same' 0 some
  split
  · exact same' _ (by omega)
  · rw [same _ (by omega), same _ (by omega), same' _ (by omega), same' _ (by omega)]

variable [LinearOrder K] [IsStrictOrderedRing K]

/-- **The inverse interpolant** of points that rise, with the ends beyond the points. -/
theorem interpolant_interpolant (some : 0 < n) (rises : Rises n xs) (rises' : Rises n ys)
    (cut : Cut (fun j => xs j < x) n i) (cut' : Cut (fun j => ys j < interpolant n xs ys i x) n i') :
    interpolant n ys xs i' (interpolant n xs ys i x) = max (xs 0) (min x (xs (n - 1))) := by
  have ends : xs 0 ≤ xs (n - 1) := rises.le (Nat.zero_le _) (by omega)
  by_cases left : i = 0
  · subst left
    have before : x ≤ xs 0 := not_lt.1 (cut.behind 0 (Nat.le_refl 0) some)
    rw [interpolant_first cut before] at cut' ⊢
    rw [interpolant_first cut' le_rfl, min_eq_left (before.trans ends), max_eq_left before]
  by_cases right : i = n
  · subst right
    have behind : xs (i - 1) < x := cut.before _ (by omega)
    rw [interpolant_last cut some behind] at cut' ⊢
    rw [interpolant_node cut' (by omega) fun j before => rises' j _ before (by omega), min_eq_right behind.le,
      max_eq_right ends]
  · obtain ⟨low, high⟩ := cut.segment left right
    have inRange : i < n := lt_of_le_of_ne cut.inRange right
    have distinct : xs (i - 1) < xs i := rises _ _ (by omega) inRange
    have distinct' : ys (i - 1) < ys i := rises' _ _ (by omega) inRange
    have strict := chord_strictMono distinct distinct'
    have value : interpolant n xs ys i x = chord (xs (i - 1)) (ys (i - 1)) (xs i) (ys i) x := by
      rw [interpolant, if_neg left, if_neg right]
    have same : Cut (fun j => ys j < interpolant n xs ys i x) n i := by
      refine rises'.cut inRange ?_ ?_
      · rintro j rfl
        rw [value]
        calc ys j = chord (xs j) (ys j) (xs (j + 1)) (ys (j + 1)) (xs j) := chord_left.symm
          _ < chord (xs j) (ys j) (xs (j + 1)) (ys (j + 1)) x := strict low
      · rw [value]
        calc chord (xs (i - 1)) (ys (i - 1)) (xs i) (ys i) x ≤ chord (xs (i - 1)) (ys (i - 1)) (xs i) (ys i) (xs i) :=
              strict.monotone high
          _ = ys i := chord_right (sub_ne_zero.2 distinct.ne')
    have inside : max (xs 0) (min x (xs (n - 1))) = x := by
      have first : xs 0 ≤ x := (rises.le (Nat.zero_le _) (by omega)).trans low.le
      have last : x ≤ xs (n - 1) := high.trans (rises.le (by omega) (by omega))
      rw [min_eq_left last, max_eq_right first]
    rw [cut'.unique same, inside, value, interpolant, if_neg left, if_neg right]
    exact chord_chord (sub_ne_zero.2 distinct.ne') (sub_ne_zero.2 distinct'.ne')

/-- The first coordinates from the other end, negated. -/
def reflected (n : Nat) (xs : Nat → K) (j : Nat) : K := -xs (n - 1 - j)

theorem Rises.reflected (rises : Rises n xs) : Rises n (reflected n xs) := by
  intro j k before inside
  exact neg_lt_neg (rises _ _ (by omega) (by omega))

/-- **From the other end** the interpolant is the same. -/
theorem interpolant_reflected (some : 0 < n) (rises : Rises n xs) (cut : Cut (fun j => xs j < x) n i)
    (cut' : Cut (fun j => reflected n xs j < -x) n i') :
    interpolant n (reflected n xs) (fun j => ys (n - 1 - j)) i' (-x) = interpolant n xs ys i x := by
  have place {j : Nat} (inRange : j < n) : reflected n xs (n - 1 - j) = -xs j := by
    rw [Logic.reflected, Nat.sub_sub_self (by omega)]
  -- at a point both take its ordinate
  have node {j : Nat} (inRange : j < n) (here : x = xs j) :
      interpolant n (reflected n xs) (fun j => ys (n - 1 - j)) i' (-x) = ys j := by
    rw [here, ← place inRange] at cut' ⊢
    rw [interpolant_node cut' (by omega) fun k before => rises.reflected k _ before (by omega),
      Nat.sub_sub_self (by omega)]
  by_cases left : i = 0
  · subst left
    have before : x ≤ xs 0 := not_lt.1 (cut.behind 0 (Nat.le_refl 0) some)
    rw [interpolant_first cut before]
    rcases before.eq_or_lt with here | less
    · exact node some here
    · rw [interpolant_last cut' some (by rw [Logic.reflected, Nat.sub_self]; exact neg_lt_neg less), Nat.sub_self]
  by_cases right : i = n
  · subst right
    have behind : xs (i - 1) < x := cut.before _ (by omega)
    rw [interpolant_last cut some behind, interpolant_first cut' (neg_le_neg behind.le), Nat.sub_zero]
  · obtain ⟨low, high⟩ := cut.segment left right
    have inRange : i < n := lt_of_le_of_ne cut.inRange right
    have distinct : xs (i - 1) < xs i := rises _ _ (by omega) inRange
    rcases high.eq_or_lt with here | less
    · rw [node inRange here]
      subst here
      exact (interpolant_node cut inRange fun j before => rises j i before inRange).symm
    · have first : reflected n xs (n - i - 1) = -xs i := by
        rw [← place inRange]
        congr 1
        omega
      have second : reflected n xs (n - i) = -xs (i - 1) := by
        rw [← place (show i - 1 < n by omega)]
        congr 1
        omega
      have same : Cut (fun j => reflected n xs j < -x) n (n - i) := by
        refine rises.reflected.cut (by omega) ?_ ?_
        · intro j next
          rw [show j = n - i - 1 by omega, first]
          exact neg_lt_neg less
        · rw [second]
          exact neg_le_neg low.le
      rw [cut'.unique same, interpolant, interpolant, if_neg (by omega), if_neg (by omega), if_neg left, if_neg right,
        first, second, show n - 1 - (n - i - 1) = i by omega, show n - 1 - (n - i) = i - 1 by omega, chord_reflect,
        chord_swap (sub_ne_zero.2 distinct.ne')]

/-- Two values of one segment are as near as its ends. -/
theorem interpolant_near {xs' : Nat → K} {x' d : K} (cut : Cut (fun j => xs j < x) n i)
    (cut' : Cut (fun j => xs' j < x') n i) (nonneg : 0 ≤ d) (near : ∀ j, j + 1 < n → |ys (j + 1) - ys j| ≤ d) :
    |interpolant n xs' ys i x' - interpolant n xs ys i x| ≤ d := by
  by_cases left : i = 0
  · rw [interpolant, interpolant, if_pos left, if_pos left, sub_self, abs_zero]
    exact nonneg
  by_cases right : i = n
  · rw [interpolant, interpolant, if_neg left, if_neg left, if_pos right, if_pos right, sub_self, abs_zero]
    exact nonneg
  · obtain ⟨low, high⟩ := @interpolant_between K _ n i xs ys x _ _ cut left right
    obtain ⟨low', high'⟩ := @interpolant_between K _ n i xs' ys x' _ _ cut' left right
    have inRange := cut.inRange
    have width := near (i - 1) (by omega)
    rw [show i - 1 + 1 = i by omega, ← max_sub_min_eq_abs] at width
    rw [abs_le]
    constructor
    · linarith
    · linarith

end Interpolant

end Maskset.Logic
