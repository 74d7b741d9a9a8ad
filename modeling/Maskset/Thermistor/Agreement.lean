import Maskset.Thermistor.Calibration
import Maskset.Thermistor.Lut
import Mathlib.Data.Nat.Cast.Order.Field

/-!
# The firmware's lookup and the reference

On a table that is steeper than its spacing the slope of the firmware is zero: it returns an
entry of the table, the nearest one or the one before that. `lookup_near` bounds how far that is
from the reference interpolation of the same table.
-/

namespace Maskset.Thermistor.Lut
set_option autoImplicit false

open Maskset.Logic

/-- No segment has a computed slope. -/
def Steep (step N : Nat) (y : Nat → Nat) : Prop :=
  ∀ k, k + 1 < N → ¬ Shallow step (y k) (y (k + 1)) ∧ ¬ Cliff step (y k) (y (k + 1))

/-- The entry that is returned `rest` behind grid point `k`. -/
def entry (step k rest : Nat) : Nat := if step ≤ rest + step / 2 ∨ k = 0 then k else k - 1

/-- The table for the reference. -/
def grid (K : Type) [Field K] (spacing : AdcSpacing) (N : Nat) : List K :=
  (List.range N).map fun k => ((spacing.at k).toNat : K)

def column (K : Type) [Field K] {N : Nat} (yVals : Vector (BitVec 32) N) : List K :=
  (List.range N).map fun k => (ordinate yVals k : K)

/-- A higher input gets no earlier entry. -/
theorem entry_mono {step k rest k' rest' : Nat} (within' : rest' < step)
    (order : step * k + rest ≤ step * k' + rest') : entry step k rest ≤ entry step k' rest' := by
  have segments : k < k' + 1 := Nat.lt_of_mul_lt_mul_left (a := step) (by rw [Nat.mul_succ]; omega)
  rcases Nat.lt_or_eq_of_le (Nat.le_of_lt_succ segments) with less | rfl
  · have left : entry step k rest ≤ k := by
      unfold entry
      split <;> omega
    have right : k' - 1 ≤ entry step k' rest' := by
      unfold entry
      split <;> omega
    omega
  · unfold entry
    split
    · split <;> omega
    · split <;> omega

theorem entry_le (step k rest : Nat) : entry step k rest ≤ k := by
  unfold entry
  split <;> omega

/-- The entry and its grid point, by what is left to the input. -/
theorem entry_cases (step k rest : Nat) :
    entry step k rest = k ∨ entry step k rest + 1 = k ∧ 2 * rest ≤ step := by
  unfold entry
  split
  · exact .inl rfl
  · exact .inr (by omega)

theorem falling_le {N : Nat} {y : Nat → Nat} (falling : ∀ k, k + 1 < N → y (k + 1) ≤ y k) {j j' : Nat}
    (order : j ≤ j') (inRange : j' < N) : y j' ≤ y j := by
  induction j', order using Nat.le_induction with
  | base => exact Nat.le_refl _
  | succ k _ ih => exact Nat.le_trans (falling k inRange) (ih (by omega))

section Lookup

variable {N : Nat} {spacing : AdcSpacing} {yVals : Vector (BitVec 32) N} {x : BitVec 32} {k rest : Nat}

/-- **The lookup** returns an entry of the table. -/
theorem lookup_eq (on : OnGrid spacing N x) (steep : Steep spacing.step.toNat N (ordinate yVals))
    (place : offset spacing x = spacing.step.toNat * k + rest) (within : rest < spacing.step.toNat) :
    interpolate spacing yVals x = load yVals (entry spacing.step.toNat k rest) := by
  have points := on.points
  obtain ⟨last, more, -⟩ := on.place place
  obtain ⟨rounded, found, index⟩ := index_eq on place within
  have next : spacing.step.toNat * (k + 1) = spacing.step.toNat * k + spacing.step.toNat := Nat.mul_succ _ _
  -- whichever segment is picked, its left entry is returned
  have picked {i : Nat} (index : clamp rounded.toNat 1 (N - 1) = i + 1) (last : i + 1 ≤ N - 1)
      (left : offset spacing x < spacing.step.toNat * (i + 1 + 1)) : interpolate spacing yVals x = load yVals i := by
    obtain ⟨v, value, toNat⟩ := @interpolate_eq N spacing yVals x _ on rounded found index (by omega) last left
    obtain ⟨w, there, toNat'⟩ := @load_ordinate N yVals i (by omega)
    rw [Nat.add_sub_cancel, outcome, if_neg (not_or.2 (steep i (by omega)))] at toNat
    rw [value, there]
    exact congrArg some (BitVec.eq_of_toNat_eq (toNat.trans toNat'.symm))
  unfold entry
  split
  · rename_i own
    rw [if_pos own] at index
    have behind : spacing.step.toNat * (k + 1 + 1) = spacing.step.toNat * (k + 1) + spacing.step.toNat :=
      Nat.mul_succ _ _
    exact picked index (by omega) (by omega)
  · rename_i before
    rw [if_neg before] at index
    obtain ⟨i, rfl⟩ : ∃ i, k = i + 1 := ⟨k - 1, by omega⟩
    rw [Nat.add_sub_cancel]
    exact picked index (by omega) (by omega)

end Lookup

section Reference

variable {K : Type} [Field K] {N : Nat} {spacing : AdcSpacing} {yVals : Vector (BitVec 32) N} {x : BitVec 32}
  {k rest : Nat}

theorem nth_grid (on : OnGrid spacing N x) (inRange : k < N) :
    nth (grid K spacing N) k = (spacing.start.toNat : K) + spacing.step.toNat * k := by
  rw [nth_eq (by simpa [grid] using inRange)]
  simp [grid, on.at_toNat inRange.le]

theorem nth_column (inRange : k < N) : nth (column K yVals) k = (ordinate yVals k : K) := by
  rw [nth_eq (by simpa [column] using inRange)]
  simp [column]

variable [LinearOrder K] [IsStrictOrderedRing K]

theorem grid_rising (on : OnGrid spacing N x) : (grid K spacing N).Pairwise (· < ·) := by
  refine List.pairwise_map.2 (List.pairwise_lt_range.imp_of_mem ?_)
  intro j k before inside less
  have below := List.mem_range.1 before
  have above := List.mem_range.1 inside
  rw [on.at_toNat below.le, on.at_toNat above.le]
  have step : spacing.step.toNat * j < spacing.step.toNat * k := Nat.mul_lt_mul_of_pos_left less on.step
  exact_mod_cast Nat.add_lt_add_left step _

/-- **The reference** goes along the segment of the input. -/
theorem reference_eq (on : OnGrid spacing N x) (place : offset spacing x = spacing.step.toNat * k + rest)
    (within : rest < spacing.step.toNat) :
    Thermistor.interpolate (grid K spacing N) (column K yVals) (x.toNat : K) =
      .ok (ordinate yVals k + (ordinate yVals (k + 1) - ordinate yVals k) * (rest / spacing.step.toNat)) := by
  have points := on.points
  have low := on.low
  obtain ⟨last, more, -⟩ := on.place place
  have length : (grid K spacing N).length = N := by simp [grid]
  have length' : (column K yVals).length = N := by simp [column]
  have rises := rises_nth (grid_rising (K := K) on)
  have step : (0 : K) < spacing.step.toNat := Nat.cast_pos.2 on.step
  have input : (x.toNat : K) = spacing.start.toNat + spacing.step.toNat * k + rest := by
    rw [offset] at place
    exact_mod_cast (show x.toNat = spacing.start.toNat + spacing.step.toNat * k + rest by omega)
  obtain ⟨i, -, cut, value⟩ := interpolate_found ((grid_rising on).imp le_of_lt) (length.trans length'.symm)
    (by rw [length]; exact points) (x.toNat : K)
  rw [length] at rises cut value
  rw [value]
  congr 1
  by_cases onPoint : rest = 0
  · have here : (x.toNat : K) = nth (grid K spacing N) k := by
      rw [input, nth_grid on (by omega), onPoint, Nat.cast_zero, add_zero]
    rw [here] at cut ⊢
    rw [interpolant_node cut (by omega) fun j before => rises j k before (by omega), nth_column (by omega), onPoint,
      Nat.cast_zero, zero_div, mul_zero, add_zero]
  · have next := more onPoint
    have left := nth_grid (K := K) on (show k < N by omega)
    have right := nth_grid (K := K) on (show k + 1 < N by omega)
    have same : Cut (fun j => nth (grid K spacing N) j < x.toNat) N (k + 1) := by
      refine rises.cut (by omega) ?_ ?_
      · intro j before
        rw [show j = k by omega, left, input]
        exact lt_add_of_pos_right _ (Nat.cast_pos.2 (Nat.pos_of_ne_zero onPoint))
      · rw [right, input, Nat.cast_succ, mul_add, mul_one, ← add_assoc]
        exact add_le_add_right (Nat.cast_le.2 within.le) _
    rw [cut.unique same, interpolant, if_neg (Nat.succ_ne_zero k), if_neg (by omega), chord_eq, Nat.add_sub_cancel,
      left, right, nth_column (by omega), nth_column (by omega), input, Nat.cast_succ]
    congr 2
    congr 1
    · ring
    · ring

/-- How far the reference goes from the entry at the left. -/
theorem reference_near (on : OnGrid spacing N x) (place : offset spacing x = spacing.step.toNat * k + rest) {d : K}
    (near : ∀ j, j + 1 < N → |(ordinate yVals (j + 1) : K) - ordinate yVals j| ≤ d) :
    |((ordinate yVals (k + 1) : K) - ordinate yVals k) * (rest / spacing.step.toNat)| ≤
      d * (rest / spacing.step.toNat) := by
  have points := on.points
  obtain ⟨-, more, -⟩ := on.place place
  have part : (0 : K) ≤ rest / spacing.step.toNat := div_nonneg (Nat.cast_nonneg _) (Nat.cast_nonneg _)
  by_cases onPoint : rest = 0
  · rw [onPoint, Nat.cast_zero, zero_div, mul_zero, mul_zero, abs_zero]
  · have next := more onPoint
    rw [abs_mul, abs_of_nonneg part]
    exact mul_le_mul_of_nonneg_right (near k (by omega)) part

end Reference

/-- **The lookup is near the reference**: on every table that is steeper than its spacing and whose
neighbouring entries differ by at most `d`, every input on the grid gets the entry of a grid point at
or before it, less than one and a half steps away and within one and a half `d` of what the
reference interpolation of the table gives, and on a falling table a higher input never gets a
higher entry. -/
theorem lookup_near {K : Type} [Field K] [LinearOrder K] [IsStrictOrderedRing K] {N : Nat} {spacing : AdcSpacing}
    {yVals : Vector (BitVec 32) N} {x : BitVec 32} {d : K} (on : OnGrid spacing N x)
    (steep : Steep spacing.step.toNat N (ordinate yVals))
    (near : ∀ k, k + 1 < N → |(ordinate yVals (k + 1) : K) - ordinate yVals k| ≤ d) :
    ∃ j v t, j < N ∧ interpolate spacing yVals x = some v ∧ load yVals j = some v ∧
      (spacing.at j).toNat ≤ x.toNat ∧ 2 * (x.toNat - (spacing.at j).toNat) < 3 * spacing.step.toNat + 1 ∧
      Thermistor.interpolate (grid K spacing N) (column K yVals) (x.toNat : K) = .ok t ∧
      |(v.toNat : K) - t| ≤ 3 / 2 * d ∧
      ((∀ k, k + 1 < N → ordinate yVals (k + 1) ≤ ordinate yVals k) → ∀ x', OnGrid spacing N x' → x ≤ x' →
        ∃ v', interpolate spacing yVals x' = some v' ∧ v' ≤ v) := by
  have points := on.points
  have low := on.low
  have place := (Nat.div_add_mod (offset spacing x) spacing.step.toNat).symm
  have within := Nat.mod_lt (offset spacing x) on.step
  have value := lookup_eq on steep place within
  have reference := @reference_eq K _ N spacing yVals x _ _ _ _ on place within
  have along := reference_near on place near
  obtain ⟨last, more, -⟩ := on.place place
  generalize offset spacing x / spacing.step.toNat = k at *
  generalize offset spacing x % spacing.step.toNat = rest at *
  have before := entry_le spacing.step.toNat k rest
  have point := on.at_toNat (show entry spacing.step.toNat k rest ≤ N by omega)
  have input : x.toNat = spacing.start.toNat + spacing.step.toNat * k + rest := by
    rw [offset] at place
    omega
  obtain ⟨v, there, toNat⟩ := @load_ordinate N yVals (entry spacing.step.toNat k rest) (by omega)
  refine ⟨_, v, _, by omega, value.trans there, there, ?_, ?_, reference, ?_, ?_⟩
  · rw [point, input]
    have here := Nat.mul_le_mul_left spacing.step.toNat before
    omega
  · rw [point, input]
    have place := entry_cases spacing.step.toNat k rest
    generalize entry spacing.step.toNat k rest = j at place
    rcases place with rfl | ⟨rfl, half⟩
    · omega
    · rw [Nat.mul_succ]
      omega
  · have nonneg : 0 ≤ d := (abs_nonneg _).trans (near 0 (by omega))
    have step : (0 : K) < spacing.step.toNat := Nat.cast_pos.2 on.step
    have place := entry_cases spacing.step.toNat k rest
    rw [toNat]
    generalize entry spacing.step.toNat k rest = j at place
    rcases place with rfl | ⟨rfl, half⟩
    · have part : (rest : K) / spacing.step.toNat ≤ 1 := (div_le_one step).2 (Nat.cast_le.2 within.le)
      rw [sub_add_cancel_left, abs_neg]
      calc _ ≤ d * (rest / spacing.step.toNat) := along
        _ ≤ d * 1 := mul_le_mul_of_nonneg_left part nonneg
        _ ≤ 3 / 2 * d := by linarith
    · have part : (rest : K) / spacing.step.toNat ≤ 1 / 2 := by
        rw [div_le_div_iff₀ step two_pos]
        exact_mod_cast (show rest * 2 ≤ 1 * spacing.step.toNat by omega)
      have before := near j (by omega)
      rw [← sub_sub]
      calc _ ≤ |(ordinate yVals j : K) - ordinate yVals (j + 1)| +
            |((ordinate yVals (j + 1 + 1) : K) - ordinate yVals (j + 1)) * (rest / spacing.step.toNat)| := abs_sub _ _
        _ ≤ d + d * (rest / spacing.step.toNat) := add_le_add (by rwa [abs_sub_comm]) along
        _ ≤ d + d * (1 / 2) := add_le_add_right (mul_le_mul_of_nonneg_left part nonneg) d
        _ = 3 / 2 * d := by ring
  · intro falling x' on' order
    have place' := (Nat.div_add_mod (offset spacing x') spacing.step.toNat).symm
    have within' := Nat.mod_lt (offset spacing x') on'.step
    have value' := @lookup_eq N spacing yVals x' _ _ on' steep place' within'
    obtain ⟨last', -, -⟩ := on'.place place'
    generalize offset spacing x' / spacing.step.toNat = k' at *
    generalize offset spacing x' % spacing.step.toNat = rest' at *
    have before' := entry_le spacing.step.toNat k' rest'
    obtain ⟨v', there', toNat'⟩ := @load_ordinate N yVals (entry spacing.step.toNat k' rest') (by omega)
    have entries : entry spacing.step.toNat k rest ≤ entry spacing.step.toNat k' rest' := by
      refine entry_mono within' ?_
      have order' := BitVec.le_def.1 order
      rw [← place, ← place', offset, offset]
      omega
    refine ⟨v', value'.trans there', BitVec.le_def.2 ?_⟩
    rw [toNat, toNat']
    exact falling_le falling entries (by omega)

/-- Seven eighths of the way through a segment, in a table that falls by 100. -/
theorem lookup_near_falling : ∃ j v t, j < 3 ∧ interpolate ⟨8, 32, 3⟩ #v[300, 200, 100] 36 = some v ∧
    Thermistor.interpolate (grid ℚ ⟨8, 32, 3⟩ 3) (column ℚ #v[300, 200, 100]) 36 = .ok t ∧
      load #v[300, 200, 100] j = some v ∧ |(v.toNat : ℚ) - t| ≤ 3 / 2 * 100 := by
  have on : OnGrid ⟨8, 32, 3⟩ 3 36 := by
    constructor
    · decide
    · decide
    · decide
    · decide
    · decide
  have steep : Steep 32 3 (ordinate #v[300, 200, 100]) := by
    intro k inRange
    obtain rfl | rfl : k = 0 ∨ k = 1 := by omega
    · decide
    · decide
  have near : ∀ k, k + 1 < 3 → |(ordinate #v[300, 200, 100] (k + 1) : ℚ) - ordinate #v[300, 200, 100] k| ≤ 100 := by
    intro k inRange
    obtain rfl | rfl : k = 0 ∨ k = 1 := by omega
    · show |((200 : Nat) : ℚ) - (300 : Nat)| ≤ 100
      norm_num
    · show |((100 : Nat) : ℚ) - (200 : Nat)| ≤ 100
      norm_num
  obtain ⟨j, v, t, inTable, value, there, -, -, reference, error, -⟩ := lookup_near on steep near
  exact ⟨j, v, t, inTable, value, reference, there, error⟩

end Maskset.Thermistor.Lut
