import Maskset.Logic.Memory
import Mathlib.Algebra.Group.Nat.Defs
import Mathlib.Order.MinMax

/-!
# The table of the firmware

`thermistor_lut_example.cpp`: interpolation in a table over equally spaced inputs, in unsigned
32-bit arithmetic. The two abscissae are a step too far to the right, so the divisor wraps and
the slope is 0 or 1: which inputs get a value between their neighbours is a matter of the
rounding and of the table.
-/

namespace Maskset.Thermistor.Lut
set_option autoImplicit false

open Maskset.Logic

structure AdcSpacing where
  start : BitVec 32
  step : BitVec 32
  size : BitVec 32
deriving DecidableEq

def AdcSpacing.at (spacing : AdcSpacing) (index : Nat) : BitVec 32 :=
  spacing.step * BitVec.ofNat 32 index + spacing.start

def AdcSpacing.max (spacing : AdcSpacing) : BitVec 32 := spacing.at (spacing.size - 1).toNat

/-- `std::clamp`. -/
def clamp (v lo hi : Nat) : Nat := if v < lo then lo else if hi < v then hi else v

/-- `a / b`; `none` for a division by zero. -/
def quotient (a b : BitVec 32) : Option (BitVec 32) := if b = 0 then none else some (a / b)

/-- `interpolate` at `T = uint32_t`; `none` also when `at` throws. -/
def interpolate {N : Nat} (spacing : AdcSpacing) (yVals : Vector (BitVec 32) N) (x : BitVec 32) :
    Option (BitVec 32) := do
  let rounded ← quotient (x - spacing.start + spacing.step / 2) spacing.step
  let i := clamp rounded.toNat 1 (N - 1)
  let x1 := spacing.step * BitVec.ofNat 32 i + spacing.start
  let x0 := x1 + spacing.step
  let y0 ← load yVals (i - 1)
  let y1 ← load yVals i
  let slope ← quotient (y1 - y0) (x1 - x0)
  pure (y0 + slope * (x - x0))

def kLutSize : Nat := 128

def spacing : AdcSpacing := ⟨8, 32, BitVec.ofNat 32 kLutSize⟩

/-- The temperature of a reading, by the table that the compiler computes. -/
def calculateTemperatureQ16 (lut : Vector (BitVec 32) kLutSize) (adc : BitVec 32) : Option (BitVec 32) :=
  interpolate spacing lut adc

/-! ## What is asked of it -/

/-- The table, as natural numbers. -/
def ordinate {N : Nat} (yVals : Vector (BitVec 32) N) (k : Nat) : Nat := ((load yVals k).getD 0).toNat

def Between (v b c : Nat) : Prop := min b c ≤ v ∧ v ≤ max b c

instance (v b c : Nat) : Decidable (Between v b c) := inferInstanceAs (Decidable (_ ∧ _))

/-- Exact at the grid points, between the neighbours elsewhere. -/
structure Law {N : Nat} (spacing : AdcSpacing) (yVals : Vector (BitVec 32) N) (x : BitVec 32) : Prop where
  grid : ∀ k < N, x = spacing.at k → interpolate spacing yVals x = load yVals k
  between : ∀ k, k + 1 < N → spacing.at k < x → x < spacing.at (k + 1) →
    ∃ v, interpolate spacing yVals x = some v ∧ Between v.toNat (ordinate yVals k) (ordinate yVals (k + 1))

/-- The grid does not overflow, and the input lies on it. -/
structure OnGrid (spacing : AdcSpacing) (N : Nat) (x : BitVec 32) : Prop where
  points : 2 ≤ N
  step : 1 ≤ spacing.step.toNat
  fits : ∀ k ≤ N, spacing.start.toNat + spacing.step.toNat * k < 2 ^ 32
  low : spacing.start.toNat ≤ x.toNat
  high : x.toNat ≤ spacing.start.toNat + spacing.step.toNat * (N - 1)

/-- A fall by at most a step, whose computed slope is 1. -/
def Shallow (step a b : Nat) : Prop := b < a ∧ a ≤ b + step

/-- A rise by almost the whole range, whose computed slope is 1 too. -/
def Cliff (step a b : Nat) : Prop := a + 2 ^ 32 ≤ b + step

instance (step a b : Nat) : Decidable (Shallow step a b) := inferInstanceAs (Decidable (_ ∧ _))
instance (step a b : Nat) : Decidable (Cliff step a b) := inferInstanceAs (Decidable (_ ≤ _))

/-- When the law holds `rest` behind grid point `k` of a table. -/
def Holds (step : Nat) (y : Nat → Nat) (k rest : Nat) : Prop :=
  if step ≤ rest + step / 2 ∨ k = 0 then
    -- the segment of the input is used
    ¬ Shallow step (y k) (y (k + 1)) ∧ (rest = 0 → ¬ Cliff step (y k) (y (k + 1)))
  else if rest = 0 then
    y (k - 1) = y k ∨ y (k - 1) = y k + step ∨ y (k - 1) + 2 ^ 32 = y k + step
  else if Shallow step (y (k - 1)) (y k) ∨ Cliff step (y (k - 1)) (y k) then
    (step - rest ≤ y (k - 1) ∧ Between (y (k - 1) - (step - rest)) (y k) (y (k + 1))) ∨
      (y (k - 1) < step - rest ∧ Between (y (k - 1) + 2 ^ 32 - (step - rest)) (y k) (y (k + 1)))
  else Between (y (k - 1)) (y k) (y (k + 1))

/-! ## What the code computes -/

/-- The value `far` before the right abscissa of a segment. -/
def outcome (step a b far : Nat) : Nat :=
  if Shallow step a b ∨ Cliff step a b then if far ≤ a then a - far else a + 2 ^ 32 - far else a

section Segment

variable {N : Nat} {spacing : AdcSpacing} {yVals : Vector (BitVec 32) N} {x : BitVec 32} {i k : Nat}

/-- Distance of the input from the start. -/
def offset (spacing : AdcSpacing) (x : BitVec 32) : Nat := x.toNat - spacing.start.toNat

theorem load_ordinate (inRange : k < N) : ∃ v, load yVals k = some v ∧ v.toNat = ordinate yVals k := by
  have length : yVals.toList.length = N := Vector.length_toList
  have found : load yVals k = some yVals.toList[k] := List.getElem?_eq_getElem (by omega)
  exact ⟨_, found, by rw [ordinate, found]; rfl⟩

theorem ordinate_lt (k : Nat) : ordinate yVals k < 2 ^ 32 := BitVec.isLt _

theorem OnGrid.at_toNat (on : OnGrid spacing N x) (inRange : k ≤ N) :
    (spacing.at k).toNat = spacing.start.toNat + spacing.step.toNat * k := by
  have fits := on.fits k inRange
  have bound := on.fits N (Nat.le_refl N)
  have small : k < 2 ^ 32 := by
    have less : k ≤ spacing.step.toNat * k := Nat.le_mul_of_pos_left k on.step
    omega
  rw [AdcSpacing.at, BitVec.toNat_add, BitVec.toNat_mul, BitVec.toNat_ofNat, Nat.mod_eq_of_lt small, Nat.mod_add_mod,
    Nat.add_comm, Nat.mod_eq_of_lt fits]

/-- The divisor wraps, and exceeds half of the range. -/
theorem slope_eq {step a b : Nat} (pos : 1 ≤ step) (small : 2 * step < 2 ^ 32) (bounded : a < 2 ^ 32 ∧ b < 2 ^ 32) :
    (2 ^ 32 - a + b) % 2 ^ 32 / (2 ^ 32 - step) = if Shallow step a b ∨ Cliff step a b then 1 else 0 := by
  have width : 0 < 2 ^ 32 - step := by omega
  unfold Shallow Cliff
  split
  · rw [Nat.div_eq_iff width]
    omega
  · rw [Nat.div_eq_zero_iff]
    omega

/-- A rounded division. -/
theorem rounded_eq {step k rest : Nat} (within : rest < step) :
    (step * k + rest + step / 2) / step = if step ≤ rest + step / 2 then k + 1 else k := by
  have pos : 0 < step := Nat.zero_lt_of_lt within
  rw [Nat.add_assoc, Nat.mul_add_div pos]
  split
  · have one : (rest + step / 2) / step = 1 := by
      rw [Nat.div_eq_iff pos]
      omega
    rw [one]
  · rw [Nat.div_eq_of_lt (by omega), Nat.add_zero]

/-- How far the last grid point lets an input go. -/
theorem OnGrid.place (on : OnGrid spacing N x) {k rest : Nat}
    (place : offset spacing x = spacing.step.toNat * k + rest) :
    k ≤ N - 1 ∧ (rest ≠ 0 → k + 1 ≤ N - 1) ∧ offset spacing x + spacing.step.toNat < 2 ^ 32 := by
  have points := on.points
  have bound := on.fits N (Nat.le_refl N)
  have high := on.high
  have whole : spacing.step.toNat * N = spacing.step.toNat * (N - 1) + spacing.step.toNat := by
    rw [← Nat.mul_succ]
    congr 1
    omega
  have inside : spacing.step.toNat * k + rest ≤ spacing.step.toNat * (N - 1) := by
    rw [← place, offset]
    omega
  refine ⟨?_, ?_, ?_⟩
  · exact Nat.le_of_mul_le_mul_left (Nat.le_trans (Nat.le_add_right _ rest) inside) on.step
  · intro some
    have less : spacing.step.toNat * k < spacing.step.toNat * (N - 1) := by omega
    exact Nat.lt_of_mul_lt_mul_left less
  · rw [place]
    omega

/-- The segment that the code picks. -/
theorem index_eq (on : OnGrid spacing N x) {k rest : Nat} (place : offset spacing x = spacing.step.toNat * k + rest)
    (within : rest < spacing.step.toNat) :
    ∃ rounded, quotient (x - spacing.start + spacing.step / 2) spacing.step = some rounded ∧
      clamp rounded.toNat 1 (N - 1) =
        if spacing.step.toNat ≤ rest + spacing.step.toNat / 2 ∨ k = 0 then k + 1 else k := by
  have points := on.points
  have low := on.low
  obtain ⟨last, more, room⟩ := on.place place
  have nonzero : spacing.step ≠ 0 := by
    intro zero
    rw [zero] at within
    exact absurd within (Nat.not_lt_zero rest)
  have offsetWord : (x - spacing.start).toNat = offset spacing x := by
    have words := spacing.start.isLt
    have inputs := x.isLt
    rw [BitVec.toNat_sub, offset]
    omega
  refine ⟨_, if_neg nonzero, ?_⟩
  have half : (spacing.step / 2).toNat = spacing.step.toNat / 2 := BitVec.toNat_udiv
  have small : offset spacing x + spacing.step.toNat / 2 < 2 ^ 32 := by omega
  rw [BitVec.toNat_udiv, BitVec.toNat_add, offsetWord, half, Nat.mod_eq_of_lt small, place, rounded_eq within]
  unfold clamp
  by_cases up : spacing.step.toNat ≤ rest + spacing.step.toNat / 2
  · have some : rest ≠ 0 := by omega
    have before := more some
    have next : spacing.step.toNat ≤ rest + spacing.step.toNat / 2 ∨ k = 0 := .inl up
    rw [if_pos up, if_pos next, if_neg (by omega), if_neg (by omega)]
  · rw [if_neg up]
    by_cases first : k = 0
    · have next : spacing.step.toNat ≤ rest + spacing.step.toNat / 2 ∨ k = 0 := .inr first
      rw [if_pos next, if_pos (by omega), first]
    · have same : ¬ (spacing.step.toNat ≤ rest + spacing.step.toNat / 2 ∨ k = 0) := not_or.2 ⟨up, first⟩
      rw [if_neg same, if_neg (by omega), if_neg (by omega)]

/-- **What the code computes** in a segment, by the distance to its right abscissa. -/
theorem interpolate_eq (on : OnGrid spacing N x) {rounded : BitVec 32}
    (found : quotient (x - spacing.start + spacing.step / 2) spacing.step = some rounded)
    (index : clamp rounded.toNat 1 (N - 1) = i) (first : 1 ≤ i) (last : i ≤ N - 1)
    (left : offset spacing x < spacing.step.toNat * (i + 1)) :
    ∃ v, interpolate spacing yVals x = some v ∧
      v.toNat = outcome spacing.step.toNat (ordinate yVals (i - 1)) (ordinate yVals i)
        (spacing.step.toNat * (i + 1) - offset spacing x) := by
  have points := on.points
  have low := on.low
  have bound := on.fits (i + 1) (by omega)
  have step := on.step
  have inputs := x.isLt
  -- the two abscissae
  have x1 : (spacing.step * BitVec.ofNat 32 i + spacing.start).toNat =
      spacing.start.toNat + spacing.step.toNat * i := on.at_toNat (by omega)
  have x0 : (spacing.step * BitVec.ofNat 32 i + spacing.start + spacing.step).toNat =
      spacing.start.toNat + spacing.step.toNat * (i + 1) := by
    rw [BitVec.toNat_add, x1, Nat.add_assoc, ← Nat.mul_succ, Nat.mod_eq_of_lt bound]
  obtain ⟨y0, load0, toNat0⟩ := @load_ordinate N yVals (i - 1) (by omega)
  obtain ⟨y1, load1, toNat1⟩ := @load_ordinate N yVals i (by omega)
  have code : interpolate spacing yVals x =
      (quotient (y1 - y0) (spacing.step * BitVec.ofNat 32 i + spacing.start -
        (spacing.step * BitVec.ofNat 32 i + spacing.start + spacing.step))).map fun slope =>
          y0 + slope * (x - (spacing.step * BitVec.ofNat 32 i + spacing.start + spacing.step)) := by
    rw [interpolate, found]
    change (load yVals (clamp rounded.toNat 1 (N - 1) - 1) >>= fun _ =>
      load yVals (clamp rounded.toNat 1 (N - 1)) >>= fun _ => _) = _
    rw [index, load0, load1]
    exact Option.map_eq_bind.symm
  generalize spacing.step * BitVec.ofNat 32 i + spacing.start = w1 at x1 x0 code
  -- the divisor, the slope and the distance wrap
  have split : spacing.step.toNat * (i + 1) = spacing.step.toNat * i + spacing.step.toNat := Nat.mul_succ _ _
  have once : spacing.step.toNat ≤ spacing.step.toNat * i := Nat.le_mul_of_pos_right _ first
  have width : (w1 - (w1 + spacing.step)).toNat = 2 ^ 32 - spacing.step.toNat := by
    rw [BitVec.toNat_sub, x1, x0]
    omega
  have nonzero : w1 - (w1 + spacing.step) ≠ 0 := by
    intro zero
    rw [zero] at width
    have zero' : (0 : BitVec 32).toNat = 0 := rfl
    omega
  have slope : ((y1 - y0) / (w1 - (w1 + spacing.step))).toNat =
      if Shallow spacing.step.toNat (ordinate yVals (i - 1)) (ordinate yVals i) ∨
        Cliff spacing.step.toNat (ordinate yVals (i - 1)) (ordinate yVals i) then 1 else 0 := by
    rw [BitVec.toNat_udiv, width, BitVec.toNat_sub, toNat0, toNat1]
    exact slope_eq step (by omega) ⟨ordinate_lt _, ordinate_lt _⟩
  have distance : (x - (w1 + spacing.step)).toNat = 2 ^ 32 - (spacing.step.toNat * (i + 1) - offset spacing x) := by
    rw [offset] at left ⊢
    rw [BitVec.toNat_sub, x0]
    omega
  refine ⟨y0 + (y1 - y0) / (w1 - (w1 + spacing.step)) * (x - (w1 + spacing.step)), ?_, ?_⟩
  · rw [code, quotient, if_neg nonzero]
    rfl
  · have small := @ordinate_lt N yVals (i - 1)
    rw [BitVec.toNat_add, BitVec.toNat_mul, slope, distance, toNat0, outcome]
    split
    · split
      · omega
      · omega
    · omega

end Segment

/-! ## When the law holds -/

section Arithmetic

variable {step a b c rest : Nat}

/-- In the input's own segment, past its right abscissa by a step. -/
theorem ownSegment_iff (small : 2 * step < 2 ^ 32) (words : a < 2 ^ 32 ∧ b < 2 ^ 32) (within : rest < step) :
    (rest = 0 → outcome step a b (2 * step - rest) = a) ∧
        (rest ≠ 0 → Between (outcome step a b (2 * step - rest)) a b) ↔
      ¬ Shallow step a b ∧ (rest = 0 → ¬ Cliff step a b) := by
  unfold outcome Between
  by_cases slope : Shallow step a b ∨ Cliff step a b
  · rw [if_pos slope]
    unfold Shallow Cliff at *
    split
    · omega
    · omega
  · rw [if_neg slope]
    unfold Shallow Cliff at *
    omega

/-- At a grid point, in the segment before it. -/
theorem gridPoint_iff (words : a < 2 ^ 32 ∧ b < 2 ^ 32) (pos : 0 < step) (small : step < 2 ^ 32) :
    outcome step a b step = b ↔ a = b ∨ a = b + step ∨ a + 2 ^ 32 = b + step := by
  unfold outcome Shallow Cliff
  split
  · split
    · omega
    · omega
  · omega

/-- Behind a grid point, in the segment before it. -/
theorem segmentBefore_iff :
    Between (outcome step a b (step - rest)) b c ↔
      if Shallow step a b ∨ Cliff step a b then
        (step - rest ≤ a ∧ Between (a - (step - rest)) b c) ∨
          (a < step - rest ∧ Between (a + 2 ^ 32 - (step - rest)) b c)
      else Between a b c := by
  unfold outcome
  split
  · split
    · rename_i here
      simp only [here, true_and, Nat.not_lt.2 here, false_and, or_false]
    · rename_i beyond
      simp only [beyond, false_and, Nat.lt_of_not_le beyond, true_and, false_or]
  · exact Iff.rfl

end Arithmetic

section Main

variable {N : Nat} {spacing : AdcSpacing} {yVals : Vector (BitVec 32) N} {x v : BitVec 32} {k rest : Nat}

/-- The law asks for one thing, by the place of the input. -/
theorem law_iff (on : OnGrid spacing N x) (place : offset spacing x = spacing.step.toNat * k + rest)
    (within : rest < spacing.step.toNat) (value : interpolate spacing yVals x = some v) :
    Law spacing yVals x ↔ (rest = 0 → v.toNat = ordinate yVals k) ∧
      (rest ≠ 0 → Between v.toNat (ordinate yVals k) (ordinate yVals (k + 1))) := by
  have points := on.points
  have low := on.low
  obtain ⟨last, more, -⟩ := on.place place
  have next : spacing.step.toNat * (k + 1) = spacing.step.toNat * k + spacing.step.toNat := Nat.mul_succ _ _
  have whole : x.toNat = spacing.start.toNat + (spacing.step.toNat * k + rest) := by
    rw [offset] at place
    omega
  have here := on.at_toNat (k := k) (by omega)
  constructor
  · intro law
    constructor
    · intro onPoint
      have same : x = spacing.at k := by
        apply BitVec.eq_of_toNat_eq
        omega
      obtain ⟨w, found, toNat⟩ := @load_ordinate N yVals k (by omega)
      have exact' := law.grid k (by omega) same
      rw [value, found] at exact'
      rw [← toNat, Option.some.inj exact']
    · intro off
      have before := more off
      have there := on.at_toNat (k := k + 1) (by omega)
      obtain ⟨w, found, between⟩ := law.between k (by omega) (BitVec.lt_def.2 (by omega)) (BitVec.lt_def.2 (by omega))
      rw [value] at found
      rw [Option.some.inj found]
      exact between
  · rintro ⟨onPoint, off⟩
    constructor
    · intro j inRange same
      have point := on.at_toNat (k := j) (by omega)
      rw [← same] at point
      have least : k ≤ j := Nat.le_of_mul_le_mul_left (by omega) on.step
      have most : j < k + 1 := Nat.lt_of_mul_lt_mul_left (a := spacing.step.toNat) (by omega)
      obtain rfl : j = k := by omega
      obtain ⟨w, found, toNat⟩ := @load_ordinate N yVals j inRange
      rw [value, found]
      congr 1
      apply BitVec.eq_of_toNat_eq
      rw [toNat]
      exact onPoint (by omega)
    · intro j inRange above below
      have point := on.at_toNat (k := j) (by omega)
      have point' := on.at_toNat (k := j + 1) (by omega)
      rw [BitVec.lt_def] at above below
      have least : k < j + 1 := Nat.lt_of_mul_lt_mul_left (a := spacing.step.toNat) (by omega)
      have most : j < k + 1 := Nat.lt_of_mul_lt_mul_left (a := spacing.step.toNat) (by omega)
      obtain rfl : j = k := by omega
      exact ⟨v, value, off (by omega)⟩

/-- **When the table is interpolated**: the law holds of the code exactly for these inputs. -/
theorem interpolate_law_iff (on : OnGrid spacing N x) :
    Law spacing yVals x ↔ Holds spacing.step.toNat (ordinate yVals) (offset spacing x / spacing.step.toNat)
      (offset spacing x % spacing.step.toNat) := by
  have points := on.points
  have step := on.step
  have place := (Nat.div_add_mod (offset spacing x) spacing.step.toNat).symm
  have within := Nat.mod_lt (offset spacing x) step
  generalize offset spacing x / spacing.step.toNat = k at place ⊢
  generalize offset spacing x % spacing.step.toNat = rest at place within ⊢
  obtain ⟨last, more, room⟩ := on.place place
  obtain ⟨rounded, found, index⟩ := index_eq on place within
  have small : 2 * spacing.step.toNat < 2 ^ 32 := by
    have two := on.fits 2 points
    omega
  have next : spacing.step.toNat * (k + 1) = spacing.step.toNat * k + spacing.step.toNat := Nat.mul_succ _ _
  have words : ∀ j, ordinate yVals j < 2 ^ 32 := ordinate_lt
  by_cases own : spacing.step.toNat ≤ rest + spacing.step.toNat / 2 ∨ k = 0
  · have behind : spacing.step.toNat * (k + 1 + 1) = spacing.step.toNat * (k + 1) + spacing.step.toNat :=
      Nat.mul_succ _ _
    rw [if_pos own] at index
    obtain ⟨v, value, toNat⟩ :=
      @interpolate_eq N spacing yVals x _ on rounded found index (by omega) (by omega) (by omega)
    have far : spacing.step.toNat * (k + 1 + 1) - offset spacing x = 2 * spacing.step.toNat - rest := by omega
    rw [law_iff on place within value, toNat, far, Holds, if_pos own]
    exact ownSegment_iff small ⟨words _, words _⟩ within
  · rw [if_neg own] at index
    obtain ⟨v, value, toNat⟩ :=
      @interpolate_eq N spacing yVals x _ on rounded found index (by omega) (by omega) (by omega)
    have far : spacing.step.toNat * (k + 1) - offset spacing x = spacing.step.toNat - rest := by omega
    rw [law_iff on place within value, toNat, far, Holds, if_neg own]
    by_cases onPoint : rest = 0
    · subst onPoint
      rw [if_pos rfl, Nat.sub_zero]
      simp only [true_imp_iff, ne_eq, not_true_eq_false, false_imp_iff, and_true]
      exact gridPoint_iff ⟨words _, words _⟩ step (by omega)
    · rw [if_neg onPoint]
      simp only [onPoint, false_imp_iff, ne_eq, not_false_eq_true, true_imp_iff, true_and]
      exact segmentBefore_iff

end Main

/-- A table that falls by more than a step. -/
theorem interpolate_law_iff_steep : Law ⟨8, 32, 3⟩ #v[300, 200, 100] 28 := by
  have on : OnGrid ⟨8, 32, 3⟩ 3 28 := by
    constructor
    · decide
    · decide
    · decide
    · decide
    · decide
  apply (interpolate_law_iff on).2
  unfold Holds
  decide

/-- A table over the spacing of the firmware that falls as the temperature does. -/
def fallingLut : Vector (BitVec 32) kLutSize :=
  ⟨((List.range 128).map fun k => BitVec.ofNat 32 (27000000 - 100000 * k)).toArray, by simp [kLutSize]⟩

/-- At the second grid point the firmware's call gives the first value, on a falling table, and so does
the code on a rising one. -/
theorem neighbour_returned :
    (OnGrid spacing kLutSize 40 ∧ spacing.at 1 = 40 ∧ load fallingLut 1 = some 26900000 ∧
      calculateTemperatureQ16 fallingLut 40 = some 27000000 ∧ ¬ Law spacing fallingLut 40) ∧
    (interpolate ⟨8, 32, 3⟩ #v[100, 200, 300] 40 = some 100 ∧ ¬ Law ⟨8, 32, 3⟩ #v[100, 200, 300] 40) := by
  have on : OnGrid spacing kLutSize 40 := by
    constructor
    · decide
    · decide
    · decide
    · decide
    · decide
  have second : load fallingLut 1 = some 26900000 := by decide
  have first : interpolate spacing fallingLut 40 = some 27000000 := by decide
  have rising : interpolate ⟨8, 32, 3⟩ #v[100, 200, 300] 40 = some 100 := by decide
  refine ⟨⟨on, rfl, second, first, ?_⟩, rising, ?_⟩
  · intro law
    have exact' := law.grid 1 (by decide) rfl
    rw [first, second] at exact'
    exact absurd exact' (by decide)
  · intro law
    have exact' := law.grid 1 (by decide) rfl
    rw [rising] at exact'
    exact absurd exact' (by decide)

end Maskset.Thermistor.Lut
