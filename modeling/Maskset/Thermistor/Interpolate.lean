import Maskset.Logic.Interpolation
import Mathlib.Algebra.Order.Ring.Rat
import Mathlib.Algebra.Field.Rat

/-!
# The reference interpolation

`bisect_left` and `interpolate` of the notebook, over any ordered field. An exception is an
error; a list index is checked. On non-decreasing abscissae no exception is raised but the
length check's, and the result is the interpolant of the points.
-/

namespace Maskset.Thermistor
set_option autoImplicit false

open Maskset.Logic

inductive PyError where
  | valueError (message : String)
  | indexError
  | zeroDivisionError
deriving DecidableEq

variable {K : Type}

/-- `a[i]`. -/
def item (a : List K) (i : Nat) : Except PyError K :=
  match a[i]? with
  | some v => .ok v
  | none => .error .indexError

/-- `a[-1]`. -/
def lastItem (a : List K) : Except PyError K :=
  match a.getLast? with
  | some v => .ok v
  | none => .error .indexError

/-- `a / b`. -/
def quotient [Field K] [DecidableEq K] (a b : K) : Except PyError K :=
  if b = 0 then .error .zeroDivisionError else .ok (a / b)

/-- The loop of `bisect_left`. -/
def bisectLeftLoop [LinearOrder K] (a : List K) (x : K) (lo hi : Nat) : Except PyError Nat :=
  if lo < hi then do
    let v ← item a ((lo + hi) / 2)
    if v < x then bisectLeftLoop a x ((lo + hi) / 2 + 1) hi else bisectLeftLoop a x lo ((lo + hi) / 2)
  else pure lo
termination_by hi - lo

def bisectLeft [LinearOrder K] (a : List K) (x : K) : Except PyError Nat := bisectLeftLoop a x 0 a.length

def interpolate [Field K] [LinearOrder K] (xVals yVals : List K) (x : K) : Except PyError K :=
  if ¬ (xVals.length = yVals.length ∧ xVals.length ≥ 2) then
    .error (.valueError "x_vals and y_vals must be the same length and contain at least 2 points")
  else do
    let i ← bisectLeft xVals x
    -- Clamp to edges
    if i = 0 then item yVals 0
    else if i = xVals.length then lastItem yVals
    else do
      let x0 ← item xVals (i - 1)
      let x1 ← item xVals i
      let y0 ← item yVals (i - 1)
      let y1 ← item yVals i
      -- Linear interpolation formula
      let slope ← quotient (y1 - y0) (x1 - x0)
      pure (y0 + slope * (x - x0))

/-! ## What is asked of them -/

/-- Element `j` of a list that has one. -/
def nth [Zero K] (a : List K) (j : Nat) : K := a.getD j 0

/-- The value at `x` of points with these abscissae and ordinates. -/
structure IsValue [Field K] [LinearOrder K] (xVals yVals : List K) (x y : K) : Prop where
  first : x ≤ nth xVals 0 → y = nth yVals 0
  last : nth xVals (xVals.length - 1) < x → y = nth yVals (yVals.length - 1)
  node : ∀ i < xVals.length, nth xVals i = x → (∀ j < i, nth xVals j ≠ x) → y = nth yVals i
  between : ∀ i, i + 1 < xVals.length → nth xVals i < x → x < nth xVals (i + 1) →
    min (nth yVals i) (nth yVals (i + 1)) ≤ y ∧ y ≤ max (nth yVals i) (nth yVals (i + 1))

section Items

variable [Zero K] {a : List K} {i : Nat}

theorem nth_eq (inRange : i < a.length) : nth a i = a[i] := by
  rw [nth, List.getD_eq_getElem?_getD, List.getElem?_eq_getElem inRange]
  rfl

theorem item_eq (inRange : i < a.length) : item a i = .ok (nth a i) := by
  rw [item, List.getElem?_eq_getElem inRange, nth_eq inRange]

theorem lastItem_eq (some : 0 < a.length) : lastItem a = .ok (nth a (a.length - 1)) := by
  have inRange : a.length - 1 < a.length := by omega
  rw [lastItem, List.getLast?_eq_getElem?, List.getElem?_eq_getElem inRange, nth_eq inRange]

theorem nth_rel {R : K → K → Prop} (ordered : a.Pairwise R) (refl : ∀ v, R v v) {j : Nat} (order : i ≤ j)
    (inRange : j < a.length) : R (nth a i) (nth a j) := by
  rcases order.eq_or_lt with rfl | less
  · exact refl _
  · rw [nth_eq inRange, nth_eq (less.trans inRange)]
    exact List.pairwise_iff_getElem.1 ordered _ _ _ _ less

theorem nth_le [LinearOrder K] (sorted : a.Pairwise (· ≤ ·)) {j : Nat} (order : i ≤ j) (inRange : j < a.length) :
    nth a i ≤ nth a j :=
  nth_rel sorted le_refl order inRange

end Items

section Bisect

variable [Field K] [LinearOrder K] {a : List K} {x : K}

/-- The loop never reads beyond the list. -/
theorem bisectLeftLoop_eq (lo hi : Nat) (inRange : hi ≤ a.length) :
    bisectLeftLoop a x lo hi = .ok (bisect (fun j => nth a j < x) lo hi) := by
  fun_induction bisect (fun j => nth a j < x) lo hi with
  | case1 lo hi more low ih =>
    rw [bisectLeftLoop, if_pos more, item_eq (by omega)]
    exact (if_pos low).trans (ih inRange)
  | case2 lo hi more high ih =>
    rw [bisectLeftLoop, if_pos more, item_eq (by omega)]
    exact (if_neg high).trans (ih (by omega))
  | case3 lo hi finished =>
    rw [bisectLeftLoop, if_neg finished]
    rfl

/-- **`bisect_left`** ends at the cut of the elements below `x`. -/
theorem bisectLeft_cut (sorted : a.Pairwise (· ≤ ·)) (x : K) :
    ∃ i, bisectLeft a x = .ok i ∧ Cut (fun j => nth a j < x) a.length i := by
  refine ⟨_, bisectLeftLoop_eq 0 a.length (Nat.le_refl _), ?_⟩
  apply bisect_cut
  · intro i j order inRange below
    exact lt_of_le_of_lt (nth_le sorted order inRange) below
  · exact Nat.zero_le _
  · exact Nat.le_refl _
  · intro j before
    exact absurd before (Nat.not_lt_zero j)
  · intro j behind inRange
    exact absurd inRange (Nat.not_lt.2 behind)

end Bisect

section Interpolate

variable [Field K] [LinearOrder K] {xVals yVals : List K} {x y : K} {i : Nat}

/-- No exception is raised, and the result is the interpolant. -/
theorem interpolate_eq (same : xVals.length = yVals.length) (enough : xVals.length ≥ 2)
    (found : bisectLeft xVals x = .ok i) (cut : Cut (fun j => nth xVals j < x) xVals.length i) :
    interpolate xVals yVals x = .ok (interpolant xVals.length (nth xVals) (nth yVals) i x) := by
  have inRange := cut.inRange
  rw [interpolate, if_neg (not_not_intro ⟨same, enough⟩), found]
  change (if i = 0 then item yVals 0 else if i = xVals.length then lastItem yVals else _) = _
  unfold interpolant
  split
  · exact item_eq (by omega)
  rename_i left
  split
  · rw [lastItem_eq (by omega), same]
  rename_i right
  obtain ⟨low, high⟩ := cut.segment left right
  have width : nth xVals i - nth xVals (i - 1) ≠ 0 := sub_ne_zero.2 (lt_of_lt_of_le low high).ne'
  rw [item_eq (by omega), item_eq (by omega), item_eq (by omega), item_eq (by omega)]
  change (quotient _ _ >>= fun slope => _) = _
  rw [quotient, if_neg width]
  rfl

/-- The cut is found and the interpolant returned. -/
theorem interpolate_found (sorted : xVals.Pairwise (· ≤ ·)) (same : xVals.length = yVals.length)
    (enough : xVals.length ≥ 2) (x : K) :
    ∃ i, bisectLeft xVals x = .ok i ∧ Cut (fun j => nth xVals j < x) xVals.length i ∧
      interpolate xVals yVals x = .ok (interpolant xVals.length (nth xVals) (nth yVals) i x) := by
  obtain ⟨i, found, cut⟩ := bisectLeft_cut sorted x
  exact ⟨i, found, cut, interpolate_eq same enough found cut⟩

/-- So whatever is returned is the interpolant. -/
theorem interpolate_returned (sorted : xVals.Pairwise (· ≤ ·)) (same : xVals.length = yVals.length)
    (enough : xVals.length ≥ 2) (value : interpolate xVals yVals x = .ok y) :
    ∃ i, Cut (fun j => nth xVals j < x) xVals.length i ∧
      y = interpolant xVals.length (nth xVals) (nth yVals) i x := by
  obtain ⟨i, -, cut, found⟩ := interpolate_found sorted same enough x
  exact ⟨i, cut, Except.ok.inj (value.symm.trans found)⟩

variable [IsStrictOrderedRing K]

theorem interpolant_isValue (same : xVals.length = yVals.length) (enough : xVals.length ≥ 2)
    (sorted : xVals.Pairwise (· ≤ ·)) (cut : Cut (fun j => nth xVals j < x) xVals.length i) :
    IsValue xVals yVals x (interpolant xVals.length (nth xVals) (nth yVals) i x) := by
  constructor
  · intro before
    exact interpolant_first cut before
  · intro behind
    rw [← same]
    exact interpolant_last cut (by omega) behind
  · intro j inRange here leftmost
    subst here
    apply interpolant_node cut inRange
    intro k before
    exact lt_of_le_of_ne (nth_le sorted before.le inRange) (leftmost k before)
  · intro j inRange low high
    have neighbours : Cut (fun j => nth xVals j < x) xVals.length (j + 1) := by
      constructor
      · exact inRange.le
      · intro k before
        exact lt_of_le_of_lt (nth_le sorted (Nat.le_of_lt_succ before) (by omega)) low
      · intro k behind inside below
        exact lt_asymm high (lt_of_le_of_lt (nth_le sorted behind inside) below)
    rw [cut.unique neighbours]
    exact interpolant_between neighbours (Nat.succ_ne_zero j) inRange.ne

/-- **The reference interpolation is right**: on non-decreasing abscissae the search ends at the
least index behind which nothing is below `x`, nothing is raised, the value is the one asked for,
and it rises or falls with the ordinates. -/
theorem interpolate_correct (sorted : xVals.Pairwise (· ≤ ·)) (same : xVals.length = yVals.length)
    (enough : xVals.length ≥ 2) :
    (∀ x, ∃ i y, bisectLeft xVals x = .ok i ∧
      IsLeast {k | ∀ j, k ≤ j → j < xVals.length → x ≤ nth xVals j} i ∧
      interpolate xVals yVals x = .ok y ∧ IsValue xVals yVals x y) ∧
    (yVals.Pairwise (· ≤ ·) → ∀ x x' y y', x ≤ x' → interpolate xVals yVals x = .ok y →
      interpolate xVals yVals x' = .ok y' → y ≤ y') ∧
    (yVals.Pairwise (· ≥ ·) → ∀ x x' y y', x ≤ x' → interpolate xVals yVals x = .ok y →
      interpolate xVals yVals x' = .ok y' → y' ≤ y) := by
  refine ⟨?_, ?_, ?_⟩
  · intro x
    obtain ⟨i, found, cut, value⟩ := interpolate_found sorted same enough x
    have least := cut.isLeast
    simp only [not_lt] at least
    exact ⟨i, _, found, least, value, interpolant_isValue same enough sorted cut⟩
  · intro rising x x' y y' order value value'
    obtain ⟨i, cut, rfl⟩ := interpolate_returned sorted same enough value
    obtain ⟨i', cut', rfl⟩ := interpolate_returned sorted same enough value'
    apply interpolant_mono _ cut cut' order
    intro j k before inside
    exact nth_le rising before (same ▸ inside)
  · intro falling x x' y y' order value value'
    obtain ⟨i, cut, rfl⟩ := interpolate_returned sorted same enough value
    obtain ⟨i', cut', rfl⟩ := interpolate_returned sorted same enough value'
    apply interpolant_anti _ cut cut' order
    intro j k before inside
    exact nth_rel falling le_refl before (same ▸ inside)

end Interpolate

/-- A table that falls, with two points of one abscissa. -/
theorem interpolate_correct_step :
    interpolate [0, 1, 1, 3] [5, 4, 2, 2] (1 : ℚ) = .ok 4 ∧
      ∀ x x' y y' : ℚ, x ≤ x' → interpolate [0, 1, 1, 3] [5, 4, 2, 2] x = .ok y →
        interpolate [0, 1, 1, 3] [5, 4, 2, 2] x' = .ok y' → y' ≤ y := by
  obtain ⟨values, -, falls⟩ := @interpolate_correct ℚ _ _ [0, 1, 1, 3] [5, 4, 2, 2] _ (by decide) rfl (by decide)
  constructor
  · obtain ⟨i, y, -, -, value, isValue⟩ := values 1
    have node := isValue.node 1 (by decide) rfl (by decide)
    rw [value, node]
    rfl
  · exact falls (by decide)

end Maskset.Thermistor
