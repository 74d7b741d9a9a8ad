import Maskset.Logic.Inversion
import Maskset.Thermistor.Interpolate
import Mathlib.Algebra.Order.Group.MinMax

/-!
# Calibration tables

The reference interpolation of the notebook read backwards, with the two columns of a table
exchanged, and the voltage divider between the thermistor and the converter: how a table over
resistances becomes one over readings. All in exact arithmetic, in place of the notebook's
doubles.
-/

namespace Maskset.Thermistor
set_option autoImplicit false

open Maskset.Logic

section Lists

variable {K : Type} [Zero K] {a : List K}

theorem nth_reverse {j : Nat} (inRange : j < a.length) : nth a.reverse j = nth a (a.length - 1 - j) := by
  rw [nth_eq (by rw [List.length_reverse]; exact inRange), nth_eq (by omega), List.getElem_reverse]

variable [LinearOrder K]

theorem rises_nth (rising : a.Pairwise (· < ·)) : Rises a.length (nth a) := by
  intro j k less inRange
  rw [nth_eq inRange, nth_eq (less.trans inRange)]
  exact List.pairwise_iff_getElem.1 rising _ _ _ _ less

end Lists

section Inverse

variable {K : Type} [Field K] [LinearOrder K] [IsStrictOrderedRing K] {xVals yVals : List K}

/-- **The exchanged table is the inverse**, in exact arithmetic: for every table that rises strictly in its first
column, what is read from it is read back from the table with its columns exchanged if the second column rises
strictly, and from the reversed one if it falls strictly; beyond the table the nearer end is read back. -/
theorem interpolate_inverse (same : xVals.length = yVals.length) (enough : xVals.length ≥ 2)
    (rising : xVals.Pairwise (· < ·)) (x : K) : ∃ y, interpolate xVals yVals x = .ok y ∧
      (yVals.Pairwise (· < ·) →
        interpolate yVals xVals y = .ok (max (nth xVals 0) (min x (nth xVals (xVals.length - 1))))) ∧
      (yVals.Pairwise (· > ·) → interpolate yVals.reverse xVals.reverse y =
        .ok (max (nth xVals 0) (min x (nth xVals (xVals.length - 1))))) := by
  have rises := rises_nth rising
  have some : 0 < xVals.length := by omega
  obtain ⟨i, -, cut, value⟩ := interpolate_found (rising.imp le_of_lt) same enough x
  refine ⟨_, value, ?_, ?_⟩
  · intro rising'
    have rises' := rises_nth rising'
    rw [← same] at rises'
    obtain ⟨i', -, cut', value'⟩ := interpolate_found (rising'.imp le_of_lt) same.symm (same ▸ enough)
      (interpolant xVals.length (nth xVals) (nth yVals) i x)
    rw [← same] at cut' value'
    rw [value', interpolant_interpolant some rises rises' cut cut']
  · -- the table from its other end rises in both columns
    intro falling
    have rising' : yVals.reverse.Pairwise (· < ·) := List.pairwise_reverse.2 falling
    have rises' := rises_nth rising'
    have length : yVals.reverse.length = xVals.length := List.length_reverse.trans same.symm
    obtain ⟨i₂, cut₂⟩ := rises.reflected.exists_cut (-x)
    have forward : interpolant xVals.length (nth xVals) (nth yVals) i x =
        interpolant xVals.length (reflected xVals.length (nth xVals)) (nth yVals.reverse) i₂ (-x) := by
      rw [← interpolant_reflected some rises cut cut₂]
      refine interpolant_congr cut₂.inRange some (fun _ _ => rfl) fun j inRange => ?_
      rw [nth_reverse (same ▸ inRange), same]
    have same' : yVals.reverse.length = xVals.reverse.length := length.trans List.length_reverse.symm
    obtain ⟨i', -, cut', value'⟩ := interpolate_found (rising'.imp le_of_lt) same'
      (by rw [length]; exact enough) (interpolant xVals.length (nth xVals) (nth yVals) i x)
    rw [length, forward] at cut'
    have negated : interpolant xVals.length (nth yVals.reverse) (nth xVals.reverse) i'
        (interpolant xVals.length (nth xVals) (nth yVals) i x) =
          -interpolant xVals.length (nth yVals.reverse) (reflected xVals.length (nth xVals)) i'
            (interpolant xVals.length (nth xVals) (nth yVals) i x) := by
      rw [← interpolant_neg]
      refine interpolant_congr cut'.inRange some (fun _ _ => rfl) fun j inRange => ?_
      rw [nth_reverse inRange, reflected, neg_neg]
    rw [length] at rises' value'
    rw [value', negated, forward, interpolant_interpolant some rises.reflected rises' cut₂ cut', reflected, reflected,
      Nat.sub_zero, Nat.sub_self, min_neg_neg, max_neg_neg, neg_neg, max_min_distrib_left,
      max_eq_right (rises.le (Nat.zero_le _) (by omega)), min_comm, max_comm]

end Inverse

/-- A falling table, read forwards and from its other end. -/
theorem interpolate_inverse_falling : ∃ y : ℚ, interpolate [0, 10, 20] [30, 10, 4] 5 = .ok y ∧
    interpolate [4, 10, 30] [20, 10, 0] y = .ok 5 := by
  obtain ⟨y, read, -, back⟩ := @interpolate_inverse ℚ _ _ _ [0, 10, 20] [30, 10, 4] rfl (by decide) (by decide) 5
  have inside : max (nth [0, 10, 20] 0) (min (5 : ℚ) (nth [0, 10, 20] 2)) = 5 := by decide
  exact ⟨y, read, (back (by decide)).trans (congrArg _ inside)⟩

/-! ## The voltage divider -/

section Divider

variable {K : Type} [Field K]

/-- The arithmetic is exact: the doubles of the notebook round, and for large resistances the ratio comes to 1. -/
def calcAdcFromOhms [DecidableEq K] (rTherm : K) (rDiv : K := 10000) (nbits : Nat := 12) : Except PyError K := do
  let ratio ← quotient rTherm (rTherm + rDiv)
  pure (ratio * 2 ^ nbits)

/-- Exact as well; in doubles the resistance comes back up to rounding. -/
def calcOhmsFromAdc [DecidableEq K] (adc : K) (rDiv : K := 10000) (nbits : Nat := 12) : Except PyError K := do
  let ratio ← quotient adc (2 ^ nbits)
  quotient (ratio * rDiv) (1 - ratio)

/-- The reading of a resistance. -/
def reading (rDiv : K) (nbits : Nat) (r : K) : K := r / (r + rDiv) * 2 ^ nbits

variable [LinearOrder K] [IsStrictOrderedRing K] {rDiv r r' : K} {nbits : Nat}

theorem calcAdcFromOhms_eq (pos : 0 < rDiv) (nonneg : 0 ≤ r) :
    calcAdcFromOhms r rDiv nbits = .ok (reading rDiv nbits r) := by
  rw [calcAdcFromOhms, quotient, if_neg (add_pos_of_nonneg_of_pos nonneg pos).ne']
  rfl

/-- The resistance is found again. -/
theorem calcOhmsFromAdc_eq (pos : 0 < rDiv) (nonneg : 0 ≤ r) :
    calcOhmsFromAdc (reading rDiv nbits r) rDiv nbits = .ok r := by
  have sum : r + rDiv ≠ 0 := (add_pos_of_nonneg_of_pos nonneg pos).ne'
  have scale : (2 : K) ^ nbits ≠ 0 := pow_ne_zero _ two_ne_zero
  have ratio : reading rDiv nbits r / 2 ^ nbits = r / (r + rDiv) := mul_div_cancel_right₀ _ scale
  have rest : 1 - r / (r + rDiv) = rDiv / (r + rDiv) := by
    field_simp
    ring
  rw [calcOhmsFromAdc, quotient, if_neg scale]
  change quotient _ _ = _
  rw [ratio, rest, quotient, if_neg (div_ne_zero pos.ne' sum), div_mul_eq_mul_div, div_div_div_cancel_right₀ sum,
    mul_div_cancel_right₀ _ pos.ne']

theorem reading_bounds (pos : 0 < rDiv) (nonneg : 0 ≤ r) :
    0 ≤ reading rDiv nbits r ∧ reading rDiv nbits r < 2 ^ nbits := by
  have sum : 0 < r + rDiv := add_pos_of_nonneg_of_pos nonneg pos
  have scale : (0 : K) < 2 ^ nbits := pow_pos two_pos _
  constructor
  · exact mul_nonneg (div_nonneg nonneg sum.le) scale.le
  · have ratio : r / (r + rDiv) < 1 := (div_lt_one sum).2 (lt_add_of_pos_right r pos)
    exact mul_lt_of_lt_one_left scale ratio

/-- A higher resistance gives a higher reading. -/
theorem reading_lt_iff (pos : 0 < rDiv) (nonneg : 0 ≤ r) (nonneg' : 0 ≤ r') :
    reading rDiv nbits r < reading rDiv nbits r' ↔ r < r' := by
  have sum : 0 < r + rDiv := add_pos_of_nonneg_of_pos nonneg pos
  have sum' : 0 < r' + rDiv := add_pos_of_nonneg_of_pos nonneg' pos
  have scale : (0 : K) < 2 ^ nbits := pow_pos two_pos _
  unfold reading
  rw [mul_lt_mul_iff_left₀ scale, div_lt_div_iff₀ sum sum', mul_add, mul_add, mul_comm r' r, add_lt_add_iff_left,
    mul_lt_mul_iff_left₀ pos]

end Divider

section Readings

variable {K : Type} [Field K] {ohms temps : List K} {rDiv : K}

theorem nth_readings {nbits j : Nat} (inRange : j < ohms.length) :
    nth (ohms.map (reading rDiv nbits)) j = reading rDiv nbits (nth ohms j) := by
  rw [nth_eq (by rwa [List.length_map]), nth_eq inRange, List.getElem_map]

variable [LinearOrder K] [IsStrictOrderedRing K]

/-- The readings of a table. -/
theorem readings_eq (pos : 0 < rDiv) (nbits : Nat) (positive : ∀ r ∈ ohms, 0 ≤ r) :
    ohms.mapM (fun r => calcAdcFromOhms r rDiv nbits) = .ok (ohms.map (reading rDiv nbits)) := by
  induction ohms with
  | nil => rfl
  | cons r ohms ih =>
    obtain ⟨first, others⟩ := List.forall_mem_cons.1 positive
    rw [List.mapM_cons, calcAdcFromOhms_eq pos first, ih others]
    rfl

/-- The search in the readings ends where the one in the resistances does. -/
theorem readings_cut (pos : 0 < rDiv) (nbits : Nat) (positive : ∀ r ∈ ohms, 0 ≤ r) {r : K} (nonneg : 0 ≤ r) {i : Nat}
    (cut : Cut (fun j => nth ohms j < r) ohms.length i) :
    Cut (fun j => nth (ohms.map (reading rDiv nbits)) j < reading rDiv nbits r) ohms.length i := by
  have less {j : Nat} (inRange : j < ohms.length) :
      nth (ohms.map (reading rDiv nbits)) j < reading rDiv nbits r ↔ nth ohms j < r := by
    rw [nth_readings inRange]
    exact reading_lt_iff pos (by rw [nth_eq inRange]; exact positive _ (List.getElem_mem inRange)) nonneg
  constructor
  · exact cut.inRange
  · intro j before
    exact (less (lt_of_lt_of_le before cut.inRange)).2 (cut.before j before)
  · intro j behind inRange here
    exact cut.behind j behind inRange ((less inRange).1 here)

/-- **A table over resistances becomes one over readings**, in exact arithmetic and with a positive divider:
the readings rise with the resistances, a reading gives its resistance back, the search in the new table
ends in the segment of the resistance, at the points and beyond them both tables give the same, and
elsewhere they differ by no more than neighbouring entries do. -/
theorem adc_table (same : ohms.length = temps.length) (enough : ohms.length ≥ 2) (rising : ohms.Pairwise (· < ·))
    (positive : ∀ r ∈ ohms, 0 ≤ r) (pos : 0 < rDiv) (nbits : Nat) :
    ∃ adcs, ohms.mapM (fun r => calcAdcFromOhms r rDiv nbits) = .ok adcs ∧ adcs.Pairwise (· < ·) ∧
      ∀ r, 0 ≤ r → ∃ a, calcAdcFromOhms r rDiv nbits = .ok a ∧ calcOhmsFromAdc a rDiv nbits = .ok r ∧
        (0 ≤ a ∧ a < 2 ^ nbits) ∧ bisectLeft adcs a = bisectLeft ohms r ∧
        ∃ t t', interpolate ohms temps r = .ok t ∧ interpolate adcs temps a = .ok t' ∧
          (r ≤ nth ohms 0 ∨ r ∈ ohms ∨ nth ohms (ohms.length - 1) < r → t' = t) ∧
          ∀ d, 0 ≤ d → (∀ i, i + 1 < temps.length → |nth temps (i + 1) - nth temps i| ≤ d) → |t' - t| ≤ d := by
  have some : 0 < ohms.length := by omega
  have rising' : (ohms.map (reading rDiv nbits)).Pairwise (· < ·) :=
    List.pairwise_map.2 (rising.imp_of_mem fun here there less =>
      (reading_lt_iff pos (positive _ here) (positive _ there)).2 less)
  have length : (ohms.map (reading rDiv nbits)).length = ohms.length := List.length_map _
  refine ⟨_, readings_eq pos nbits positive, rising', ?_⟩
  intro r nonneg
  obtain ⟨i, found, cut, value⟩ := interpolate_found (rising.imp le_of_lt) same enough r
  obtain ⟨i', found', cut', value'⟩ := interpolate_found (rising'.imp le_of_lt) (length.trans same)
    (by rw [length]; exact enough) (reading rDiv nbits r)
  have there := readings_cut pos nbits positive nonneg cut
  rw [length] at cut' value'
  obtain rfl := cut'.unique there
  refine ⟨_, calcAdcFromOhms_eq pos nonneg, calcOhmsFromAdc_eq pos nonneg, reading_bounds pos nonneg,
    found'.trans found.symm, _, _, value, value', ?_, ?_⟩
  · rintro (before | here | behind)
    · have first : i' = 0 := by
        by_contra later
        exact absurd (cut.before 0 (Nat.pos_of_ne_zero later)) (not_lt.2 before)
      rw [interpolant, interpolant, if_pos first, if_pos first]
    · obtain ⟨k, inRange, rfl⟩ := List.getElem_of_mem here
      rw [← nth_eq inRange] at cut cut' ⊢
      rw [← nth_readings inRange] at cut' ⊢
      have rises := rises_nth rising
      have rises' := rises_nth rising'
      rw [length] at rises'
      rw [interpolant_node cut inRange fun j before => rises j k before inRange,
        interpolant_node cut' inRange fun j before => rises' j k before inRange]
    · have last : i' = ohms.length := by
        by_contra less
        have inRange := cut.inRange
        exact cut.behind _ (by omega) (by omega) behind
      rw [interpolant, interpolant, last, if_neg some.ne', if_neg some.ne', if_pos rfl, if_pos rfl]
  · intro d nonneg near
    rw [← same] at near
    exact interpolant_near cut cut' nonneg near

end Readings

/-- Ten kiloohms in a table, and a resistance that is not in it. -/
theorem adc_table_ntc : ∃ adcs : List ℚ,
    [3000, 10000, 30000].mapM (fun r => calcAdcFromOhms r 10000 12) = .ok adcs ∧
      (∃ a t, calcAdcFromOhms 10000 10000 12 = .ok a ∧ interpolate [3000, 10000, 30000] [60, 25, 0] 10000 = .ok t ∧
        interpolate adcs [60, 25, 0] a = .ok t) ∧
      ∃ a, calcAdcFromOhms 20000 10000 12 = .ok a ∧ calcOhmsFromAdc a 10000 12 = .ok (20000 : ℚ) := by
  obtain ⟨adcs, readings, -, all⟩ := @adc_table ℚ _ [3000, 10000, 30000] [60, 25, 0] 10000 _ _ rfl (by decide)
    (by decide) (by decide) (by decide) 12
  obtain ⟨a, there, -, -, -, t, t', value, value', same, -⟩ := all 10000 (by decide)
  obtain ⟨a', there', back, -⟩ := all 20000 (by decide)
  obtain rfl := same (.inr (.inl (by decide)))
  exact ⟨adcs, readings, ⟨a, t', there, value, value'⟩, a', there', back⟩

end Maskset.Thermistor
