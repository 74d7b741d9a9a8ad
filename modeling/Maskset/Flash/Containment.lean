import Maskset.Flash.Area

/-!
# Containment

Reads and writes stay inside their area, and a range that sticks out is refused, unless
`off + len` wraps around 2^32 to a sum that looks small enough.
-/

namespace Maskset.Flash
set_option autoImplicit false

open Maskset.Logic.Nor

/-- The address lies in the area. -/
def Inside (fa : FlashArea) (b : Addr) : Prop :=
  fa.faOff.toNat ≤ b.toNat ∧ b.toNat < fa.faOff.toNat + fa.faSize.toNat

/-- The wrapped sum passes the bounds check. -/
def Wraps (fa : FlashArea) (off len : BitVec 32) : Prop :=
  2 ^ 32 ≤ off.toNat + len.toNat ∧ off.toNat + len.toNat ≤ 2 ^ 32 + fa.faSize.toNat

instance (fa : FlashArea) (b : Addr) : Decidable (Inside fa b) := inferInstanceAs (Decidable (_ ∧ _))
instance (fa : FlashArea) (off len : BitVec 32) : Decidable (Wraps fa off len) := inferInstanceAs (Decidable (_ ∧ _))

/-- What is asked of reads and writes at `off` of `len` bytes, on every flash content. -/
structure Contained (fa : FlashArea) (off len : BitVec 32) : Prop where
  programs : ∀ d src d', flashAreaWrite fa off src len d = (.returned 0, d') →
    ∃ es, d'.trace = d.trace ++ es ∧ ∀ a, .program a ∈ es → Inside fa a
  copies : ∀ d dst d', flashAreaRead fa off len d = (.returned 0, dst, d') →
    ∃ es, d'.trace = d.trace ++ es ∧ ∀ a, .copy a ∈ es → Inside fa a
  writeRefused : fa.faSize.toNat < off.toNat + len.toNat → ∀ d src,
    ∃ rc d', flashAreaWrite fa off src len d = (.returned rc, d') ∧ rc ≠ 0 ∧ d'.flash = d.flash
  readRefused : fa.faSize.toNat < off.toNat + len.toNat → ∀ d,
    ∃ rc dst d', flashAreaRead fa off len d = (.returned rc, dst, d') ∧ rc ≠ 0 ∧ d'.flash = d.flash
  frame : ∀ d src other, other ∈ sFlashAreas → other ≠ fa → ∀ b, Inside other b →
    (flashAreaWrite fa off src len d).2.flash b = d.flash b

section Areas

variable {fa : FlashArea} {off len : BitVec 32} {d : Device} {src : Nat → Byte} {b : Addr} {i : Nat}

theorem area_bounds (area : fa ∈ sFlashAreas) :
    fa.faDeviceId = flashDeviceInternalFlash ∧ fa.faOff.toNat + fa.faSize.toNat < 2 ^ 32 := by
  have all : ∀ fa ∈ sFlashAreas,
      fa.faDeviceId = flashDeviceInternalFlash ∧ fa.faOff.toNat + fa.faSize.toNat < 2 ^ 32 := by decide
  exact all fa area

/-- The areas do not overlap. -/
theorem areas_disjoint {other : FlashArea} (area : fa ∈ sFlashAreas) (area' : other ∈ sFlashAreas)
    (ne : other ≠ fa) (inside : Inside other b) : ¬ Inside fa b := by
  have apart : ∀ fa ∈ sFlashAreas, ∀ other ∈ sFlashAreas, other ≠ fa →
      fa.faOff.toNat + fa.faSize.toNat ≤ other.faOff.toNat ∨
        other.faOff.toNat + other.faSize.toNat ≤ fa.faOff.toNat := by decide
  have placed := apart fa area other area' ne
  simp only [Inside] at *
  omega

/-- Where the sum does not wrap, the check compares the true sum. -/
theorem check_iff (noWrap : ¬ Wraps fa off len) : off + len > fa.faSize ↔ fa.faSize.toNat < off.toNat + len.toNat := by
  have bound := fa.faSize.isLt
  have bound1 := off.isLt
  have bound2 := len.isLt
  rw [gt_iff_lt, BitVec.lt_def, BitVec.toNat_add]
  simp only [Wraps] at noWrap
  omega

/-- The check lets a range inside the area through. -/
theorem accepted_of_inside {size : BitVec 32} (fits : off.toNat + len.toNat ≤ size.toNat) : ¬ off + len > size := by
  have bound := size.isLt
  rw [gt_iff_lt, BitVec.lt_def, BitVec.toNat_add]
  omega

/-- The address of an offset in the area. -/
theorem area_start (area : fa ∈ sFlashAreas) (off : BitVec 32) (fits : off.toNat ≤ fa.faSize.toNat) :
    (fa.faOff + off).toNat = fa.faOff.toNat + off.toNat := by
  have placed := (area_bounds area).2
  rw [BitVec.toNat_add]
  omega

theorem area_address (area : fa ∈ sFlashAreas) (off : BitVec 32) (i : Nat) (fits : off.toNat + i ≤ fa.faSize.toNat) :
    (fa.faOff + off + BitVec.ofNat 32 i).toNat = fa.faOff.toNat + off.toNat + i := by
  have placed := (area_bounds area).2
  rw [BitVec.toNat_add, area_start area off (by omega), BitVec.toNat_ofNat]
  omega

/-- The bytes of an accepted range lie in the area. -/
theorem inside_of_accepted (area : fa ∈ sFlashAreas) (fits : off.toNat + len.toNat ≤ fa.faSize.toNat)
    (inRange : i < len.toNat) : Inside fa (fa.faOff + off + BitVec.ofNat 32 i) := by
  unfold Inside
  rw [area_address area off i (by omega)]
  omega

/-- Outside the area an accepted write changes nothing. -/
theorem written_outside (area : fa ∈ sFlashAreas) (fits : off.toNat + len.toNat ≤ fa.faSize.toNat)
    (outside : ¬ Inside fa b) : (written fa off src len d).flash b = d.flash b := by
  refine if_neg fun (covers : (b - (fa.faOff + off)).toNat < len.toNat) => outside ?_
  have inside := inside_of_accepted area fits covers
  rwa [add_offset] at inside

/-- A range the check refuses. -/
theorem contained_of_refused (area : fa ∈ sFlashAreas) (beyond : off + len > fa.faSize) : Contained fa off len := by
  have internal := (area_bounds area).1
  have write := flashAreaWrite_refused internal beyond
  have read := flashAreaRead_refused internal beyond
  constructor
  · intro d src d' call
    rw [write] at call
    cases call
  · intro d dst d' call
    rw [read] at call
    cases call
  · intro _ d src
    exact ⟨-1, _, write src d, by decide, rfl⟩
  · intro _ d
    exact ⟨-1, _, _, read d, by decide, rfl⟩
  · intro d src other _ _ b _
    rw [write]
    rfl

/-- A range that lies in the area. -/
theorem contained_of_inside (area : fa ∈ sFlashAreas) (fits : off.toNat + len.toNat ≤ fa.faSize.toNat) :
    Contained fa off len := by
  have internal := (area_bounds area).1
  have accepted := accepted_of_inside fits
  constructor
  · intro d src d' call
    rw [flashAreaWrite_accepted internal accepted] at call
    split at call
    · obtain ⟨-, rfl⟩ := Prod.mk.inj call
      refine ⟨_, rfl, ?_⟩
      intro a programmed
      simp only [List.mem_cons, reduceCtorEq, List.mem_map, List.mem_range, Event.program.injEq, false_or]
        at programmed
      obtain ⟨i, inRange, rfl⟩ := programmed
      exact inside_of_accepted area fits inRange
    · cases call
  · intro d dst d' call
    rw [flashAreaRead_accepted internal accepted] at call
    obtain ⟨-, copied⟩ := Prod.mk.inj call
    obtain ⟨-, rfl⟩ := Prod.mk.inj copied
    refine ⟨_, rfl, ?_⟩
    intro a copied
    simp only [List.map_map, List.mem_map, List.mem_range, Function.comp_apply, Event.copy.injEq] at copied
    obtain ⟨i, inRange, rfl⟩ := copied
    exact inside_of_accepted area fits inRange
  · intro sticksOut
    omega
  · intro sticksOut
    omega
  · intro d src other area' ne b inside
    have unchanged : (written fa off src len d).flash b = d.flash b :=
      written_outside area fits (areas_disjoint area area' ne inside)
    rw [flashAreaWrite_accepted internal accepted]
    split
    · exact unchanged
    · exact unchanged

/-- Without a wrap, reads and writes are contained. -/
theorem contained_of_noWrap (area : fa ∈ sFlashAreas) (noWrap : ¬ Wraps fa off len) : Contained fa off len := by
  have check := check_iff noWrap
  by_cases beyond : off + len > fa.faSize
  · exact contained_of_refused area beyond
  · apply contained_of_inside area
    apply Nat.le_of_not_lt
    intro sticksOut
    exact beyond (check.2 sticksOut)

end Areas

/-- Erased flash. -/
def blank : Device := ⟨fun _ => 0xFF, nvmcConfigRen, []⟩

/-- **Reads and writes are contained exactly where `off + len` does not wrap** into the
accepted sums. -/
theorem contained_iff (fa : FlashArea) (area : fa ∈ sFlashAreas) (off len : BitVec 32) :
    Contained fa off len ↔ ¬ Wraps fa off len := by
  constructor
  · rintro contained ⟨wrapped, small⟩
    have bound := fa.faSize.isLt
    have bound1 := off.isLt
    have bound2 := len.isLt
    have passes : ¬ off + len > fa.faSize := by
      rw [gt_iff_lt, BitVec.lt_def, BitVec.toNat_add]
      omega
    obtain ⟨rc, dst, d', call, refused, -⟩ := contained.readRefused (by omega) blank
    rw [flashAreaRead_accepted (area_bounds area).1 passes] at call
    obtain ⟨same, -⟩ := Prod.mk.inj call
    exact refused (Outcome.returned.inj same).symm
  · exact contained_of_noWrap area

/-- Both cases in the primary slot: a range inside it, and one byte at offset 2^32 - 1. -/
theorem contained_iff_primary : Contained primaryImg0 0x100 4 ∧ ¬ Contained primaryImg0 0xFFFFFFFF 1 :=
  ⟨(contained_iff primaryImg0 (by decide) 0x100 4).2 (by decide),
    fun contained => (contained_iff primaryImg0 (by decide) 0xFFFFFFFF 1).1 contained (by decide)⟩

/-- A write of one zero byte to the primary slot, at offset 2^32 - 1 of erased flash, returns 0
and programs the last byte of the bootloader. -/
theorem bootloader_overwritten :
    (flashAreaWrite primaryImg0 0xFFFFFFFF (fun _ => 0) 1 blank).1 = .returned 0 ∧
      .program 0x7FFF ∈ (flashAreaWrite primaryImg0 0xFFFFFFFF (fun _ => 0) 1 blank).2.trace ∧
      (flashAreaWrite primaryImg0 0xFFFFFFFF (fun _ => 0) 1 blank).2.flash 0x7FFF ≠ blank.flash 0x7FFF ∧
      Inside bootloader 0x7FFF ∧ ¬ ∀ fa ∈ sFlashAreas, ∀ off len, Contained fa off len := by
  refine ⟨by decide, by decide, by decide, by decide, ?_⟩
  intro contained
  have kept := (contained primaryImg0 (by decide) 0xFFFFFFFF 1).frame blank (fun _ => 0) bootloader (by decide)
    (by decide) 0x7FFF (by decide)
  exact absurd kept (by decide)

end Maskset.Flash
