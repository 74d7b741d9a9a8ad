import Maskset.Flash.Containment

/-!
# Erasing

An aligned call erases its sectors and nothing else, whatever lies there: unlike the read
and the write, the erase does not compare the range with the area.
-/

namespace Maskset.Flash
set_option autoImplicit false

open Maskset.Logic.Nor

section Loop

variable {startAddr len i : BitVec 32} {d : Device}

/-- The sector of an aligned address. -/
theorem sector_iff {a : Nat} (b : Nat) (aligned : a % flashSectorSize = 0) :
    b / flashSectorSize = a / flashSectorSize ↔ a ≤ b ∧ b < a + flashSectorSize := by
  simp only [flashSectorSize] at *
  omega

/-- One more iteration: a whole sector is left, and the index does not wrap. -/
theorem next_sector (more : i < len) (alignedLen : len.toNat % flashSectorSize = 0)
    (aligned : i.toNat % flashSectorSize = 0) :
    i.toNat + flashSectorSize ≤ len.toNat ∧
      (i + BitVec.ofNat 32 flashSectorSize).toNat = i.toNat + flashSectorSize := by
  have bound := len.isLt
  rw [BitVec.lt_def] at more
  have room : i.toNat + flashSectorSize ≤ len.toNat := by
    simp only [flashSectorSize] at *
    omega
  refine ⟨room, ?_⟩
  rw [BitVec.toNat_add, BitVec.toNat_ofNat, Nat.add_mod_mod, Nat.mod_eq_of_lt (by omega)]

/-- The loop leaves the controller in read mode. -/
theorem eraseLoop_config (n : Nat) (idle : d.config = nvmcConfigRen) :
    (eraseLoop startAddr len n i d).config = nvmcConfigRen := by
  induction n generalizing i d with
  | zero => exact idle
  | succ n ih =>
    rw [eraseLoop]
    split
    · exact ih rfl
    · exact idle

/-- Sectors from `i` on are erased, and nothing else. -/
theorem eraseLoop_flash (n : Nat) (enough : len.toNat - i.toNat ≤ flashSectorSize * n)
    (alignedStart : startAddr.toNat % flashSectorSize = 0) (alignedLen : len.toNat % flashSectorSize = 0)
    (aligned : i.toNat % flashSectorSize = 0) (bounded : startAddr.toNat + len.toNat ≤ 2 ^ 32)
    (before : i.toNat ≤ len.toNat) (b : Addr) :
    (eraseLoop startAddr len n i d).flash b =
      if startAddr.toNat + i.toNat ≤ b.toNat ∧ b.toNat < startAddr.toNat + len.toNat then 0xff else d.flash b := by
  induction n generalizing i d with
  | zero =>
    rw [if_neg (by omega)]
    rfl
  | succ n ih =>
    rw [eraseLoop]
    split
    · rename_i more
      obtain ⟨room, next⟩ := next_sector more alignedLen aligned
      have place : (startAddr + i).toNat = startAddr.toNat + i.toNat := by
        rw [BitVec.toNat_add, Nat.mod_eq_of_lt (by simp only [flashSectorSize] at room; omega)]
      have alignedSector : (startAddr.toNat + i.toNat) % flashSectorSize = 0 := by
        simp only [flashSectorSize] at *
        omega
      rw [Nat.mul_succ] at enough
      have rest := ih (i := i + BitVec.ofNat 32 flashSectorSize)
        (d := exampleInternalFlashEraseSector (startAddr + i) d) (by omega)
        (by rw [next, Nat.add_mod_right, aligned]) (by omega)
      -- the sector at `i`, then the ones behind it
      have sector := sector_iff b.toNat alignedSector
      rw [rest, next, exampleInternalFlashEraseSector_eq, place]
      dsimp only
      by_cases behind : startAddr.toNat + (i.toNat + flashSectorSize) ≤ b.toNat ∧ b.toNat < startAddr.toNat + len.toNat
      · rw [if_pos behind, if_pos (by omega)]
      by_cases here : b.toNat / flashSectorSize = (startAddr.toNat + i.toNat) / flashSectorSize
      · have inSector := sector.1 here
        rw [if_neg behind, if_pos here, if_pos (by omega)]
      · have notInSector := mt sector.2 here
        rw [if_neg behind, if_neg here, if_neg (by omega)]
    · rename_i finished
      rw [BitVec.lt_def] at finished
      rw [if_neg (by omega)]

end Loop

section Calls

variable {fa : FlashArea} {off len : BitVec 32} {d : Device} {rc : Int}

theorem flashAreaErase_misaligned (internal : fa.faDeviceId = flashDeviceInternalFlash)
    (misaligned : len.toNat % flashSectorSize ≠ 0 ∨ off.toNat % flashSectorSize ≠ 0) (d : Device) :
    flashAreaErase fa off len d = (.returned (-1), d.logErr "%s: Not aligned on sector Offset: 0x%x Length: 0x%x"
      [.str "flash_area_erase", .num off, .num len]) := by
  rw [flashAreaErase, if_neg (not_not_intro internal)]
  exact if_pos misaligned

/-- The log line of an accepted call. -/
def eraseLogged (fa : FlashArea) (off len : BitVec 32) (d : Device) : Device :=
  d.logDbg "%s: Addr: 0x%08x Length: %d" [.str "flash_area_erase", .num (fa.faOff + off), .num len]

/-- The device when an aligned call has left the loop. -/
def erased (fa : FlashArea) (off len : BitVec 32) (d : Device) : Device :=
  eraseLoop (fa.faOff + off) len len.toNat 0 (eraseLogged fa off len d)

/-- An aligned call goes through the loop and checks what it has erased. -/
theorem flashAreaErase_accepted (internal : fa.faDeviceId = flashDeviceInternalFlash)
    (aligned : off.toNat % flashSectorSize = 0) (alignedLen : len.toNat % flashSectorSize = 0) (d : Device) :
    flashAreaErase fa off len d =
      match (List.range len.toNat).find? fun i =>
        (erased fa off len d).flash (fa.faOff + off + BitVec.ofNat 32 i) ≠ 0xff with
      | none => (.returned 0, erased fa off len d)
      | some i => (.trapped, (erased fa off len d).logErr "%s: Erase at 0x%x Failed"
          [.str "flash_area_erase", .num (fa.faOff + off + BitVec.ofNat 32 i)]) := by
  have accepted : ¬ (len.toNat % flashSectorSize ≠ 0 ∨ off.toNat % flashSectorSize ≠ 0) :=
    not_or.2 ⟨not_not_intro alignedLen, not_not_intro aligned⟩
  rw [flashAreaErase, if_neg (not_not_intro internal), if_neg accepted]
  rfl

/-- When it returns, it returns 0. -/
theorem flashAreaErase_returned (internal : fa.faDeviceId = flashDeviceInternalFlash)
    (aligned : off.toNat % flashSectorSize = 0) (alignedLen : len.toNat % flashSectorSize = 0)
    (call : (flashAreaErase fa off len d).1 = .returned rc) : rc = 0 := by
  rw [flashAreaErase_accepted internal aligned alignedLen] at call
  split at call
  · exact (Outcome.returned.inj call).symm
  · cases call

/-- **An aligned call that does not run past the address space** erases its range, and nothing
else, and returns 0. -/
theorem flashAreaErase_erases (internal : fa.faDeviceId = flashDeviceInternalFlash)
    (aligned : off.toNat % flashSectorSize = 0) (alignedLen : len.toNat % flashSectorSize = 0)
    (alignedArea : fa.faOff.toNat % flashSectorSize = 0)
    (start : (fa.faOff + off).toNat = fa.faOff.toNat + off.toNat)
    (bounded : fa.faOff.toNat + off.toNat + len.toNat ≤ 2 ^ 32) (d : Device) :
    flashAreaErase fa off len d = (.returned 0, erased fa off len d) ∧
      ∀ b, (erased fa off len d).flash b =
        if fa.faOff.toNat + off.toNat ≤ b.toNat ∧ b.toNat < fa.faOff.toNat + off.toNat + len.toNat then 0xff
        else d.flash b := by
  have alignedStart : (fa.faOff + off).toNat % flashSectorSize = 0 := by
    rw [start, Nat.add_mod, alignedArea, aligned, Nat.add_zero, Nat.zero_mod]
  have flash : ∀ b, (erased fa off len d).flash b =
      if fa.faOff.toNat + off.toNat ≤ b.toNat ∧ b.toNat < fa.faOff.toNat + off.toNat + len.toNat then 0xff
      else d.flash b := by
    intro b
    rw [erased, eraseLoop_flash len.toNat (by simp only [flashSectorSize]; omega) alignedStart alignedLen (by decide)
      (by omega) (Nat.zero_le _) b, start]
    rfl
  have valid : (List.range len.toNat).find? (fun i =>
      (erased fa off len d).flash (fa.faOff + off + BitVec.ofNat 32 i) ≠ 0xff) = none := by
    rw [List.find?_eq_none]
    intro i inRange
    rw [List.mem_range] at inRange
    have place : (fa.faOff + off + BitVec.ofNat 32 i).toNat = fa.faOff.toNat + off.toNat + i := by
      rw [BitVec.toNat_add, start, BitVec.toNat_ofNat]
      omega
    rw [flash, if_pos (by omega)]
    decide
  refine ⟨?_, flash⟩
  rw [flashAreaErase_accepted internal aligned alignedLen, valid]

theorem area_aligned (area : fa ∈ sFlashAreas) : fa.faOff.toNat % flashSectorSize = 0 := by
  have all : ∀ fa ∈ sFlashAreas, fa.faOff.toNat % flashSectorSize = 0 := by decide
  exact all fa area

/-- **An aligned range inside an area is erased**: the call returns 0 and sets exactly its
bytes to 0xff. -/
theorem flashAreaErase_aligned (area : fa ∈ sFlashAreas) (aligned : off.toNat % flashSectorSize = 0)
    (alignedLen : len.toNat % flashSectorSize = 0) (inside : off.toNat + len.toNat ≤ fa.faSize.toNat)
    (idle : d.config = nvmcConfigRen) :
    ∃ d1, flashAreaErase fa off len d = (.returned 0, d1) ∧ d1.config = nvmcConfigRen ∧
      ∀ b, d1.flash b =
        if fa.faOff.toNat + off.toNat ≤ b.toNat ∧ b.toNat < fa.faOff.toNat + off.toNat + len.toNat then 0xff
        else d.flash b := by
  obtain ⟨internal, placed⟩ := area_bounds area
  obtain ⟨call, flash⟩ := flashAreaErase_erases internal aligned alignedLen (area_aligned area)
    (area_start area off (by omega)) (by omega) d
  exact ⟨_, call, eraseLoop_config len.toNat idle, flash⟩

end Calls

/-! ## Is an erase contained? -/

/-- Both arguments are multiples of the sector size. -/
def Aligned (off len : BitVec 32) : Prop := off.toNat % flashSectorSize = 0 ∧ len.toNat % flashSectorSize = 0

instance (off len : BitVec 32) : Decidable (Aligned off len) := inferInstanceAs (Decidable (_ ∧ _))

/-- The call is refused, and the flash is as it was. -/
def EraseRefused (fa : FlashArea) (off len : BitVec 32) : Prop :=
  ∀ d, ∃ rc d', flashAreaErase fa off len d = (.returned rc, d') ∧ rc ≠ 0 ∧ d'.flash = d.flash

/-- What is asked of an erase at `off` of `len` bytes, on every flash content. -/
structure EraseContained (fa : FlashArea) (off len : BitVec 32) : Prop where
  frame : ∀ d b, ¬ Inside fa b → (flashAreaErase fa off len d).2.flash b = d.flash b
  beyond : fa.faSize.toNat < off.toNat + len.toNat → EraseRefused fa off len
  misaligned : ¬ Aligned off len → EraseRefused fa off len

section Contained

variable {fa : FlashArea} {off len : BitVec 32}

theorem eraseRefused_of_misaligned (area : fa ∈ sFlashAreas) (misaligned : ¬ Aligned off len) :
    EraseRefused fa off len := by
  intro d
  have some : len.toNat % flashSectorSize ≠ 0 ∨ off.toNat % flashSectorSize ≠ 0 := by
    unfold Aligned at misaligned
    omega
  exact ⟨-1, _, flashAreaErase_misaligned (area_bounds area).1 some d, by decide, rfl⟩

/-- A misaligned call changes nothing. -/
theorem eraseContained_of_misaligned (area : fa ∈ sFlashAreas) (misaligned : ¬ Aligned off len) :
    EraseContained fa off len := by
  have refused := eraseRefused_of_misaligned area misaligned
  constructor
  · intro d b _
    obtain ⟨rc, d', call, -, same⟩ := refused d
    rw [call]
    exact congrFun same b
  · intro _
    exact refused
  · intro _
    exact refused

/-- An aligned call inside the area changes nothing outside it. -/
theorem eraseContained_of_inside (area : fa ∈ sFlashAreas) (aligned : Aligned off len)
    (inside : off.toNat + len.toNat ≤ fa.faSize.toNat) : EraseContained fa off len := by
  obtain ⟨internal, placed⟩ := area_bounds area
  constructor
  · intro d b outside
    obtain ⟨call, flash⟩ := flashAreaErase_erases internal aligned.1 aligned.2 (area_aligned area)
      (area_start area off (by omega)) (by omega) d
    unfold Inside at outside
    rw [call, flash b, if_neg (by omega)]
  · intro sticksOut
    omega
  · intro misaligned
    exact (misaligned aligned).elim

end Contained

/-- **An erase is contained exactly when it is refused for its alignment or lies in the area**:
there is no bounds check. -/
theorem eraseContained_iff (fa : FlashArea) (area : fa ∈ sFlashAreas) (off len : BitVec 32) :
    EraseContained fa off len ↔ ¬ Aligned off len ∨ off.toNat + len.toNat ≤ fa.faSize.toNat := by
  constructor
  · intro contained
    by_cases aligned : Aligned off len
    · right
      apply Nat.le_of_not_lt
      intro sticksOut
      obtain ⟨rc, d', call, refused, -⟩ := contained.beyond sticksOut blank
      have returned : (flashAreaErase fa off len blank).1 = .returned rc := by rw [call]
      exact refused (flashAreaErase_returned (area_bounds area).1 aligned.1 aligned.2 returned)
    · exact .inl aligned
  · intro condition
    by_cases aligned : Aligned off len
    · exact eraseContained_of_inside area aligned (condition.resolve_left (not_not_intro aligned))
    · exact eraseContained_of_misaligned area aligned

/-- The last sector of the primary slot, and the same with one sector more. -/
theorem eraseContained_iff_primary :
    EraseContained primaryImg0 0x1F000 0x1000 ∧ ¬ EraseContained primaryImg0 0x1F000 0x2000 := by
  constructor
  · exact (eraseContained_iff primaryImg0 (by decide) 0x1F000 0x1000).2 (by decide)
  · intro contained
    exact absurd ((eraseContained_iff primaryImg0 (by decide) 0x1F000 0x2000).1 contained) (by decide)

/-- Flash that reads 0 everywhere. -/
def zeroed : Device := ⟨fun _ => 0, nvmcConfigRen, []⟩

/-- An erase of two sectors at the end of the primary slot returns 0 and erases the first
sector of the secondary slot. -/
theorem secondary_erased :
    (flashAreaErase primaryImg0 0x1F000 0x2000 zeroed).1 = .returned 0 ∧
      (flashAreaErase primaryImg0 0x1F000 0x2000 zeroed).2.flash 0x28000 = 0xff ∧
      zeroed.flash 0x28000 = 0 ∧ Inside secondaryImg0 0x28000 ∧ ¬ Inside primaryImg0 0x28000 ∧
      ¬ ∀ fa ∈ sFlashAreas, ∀ off len, EraseContained fa off len := by
  obtain ⟨call, flash⟩ := @flashAreaErase_erases primaryImg0 0x1F000 0x2000 rfl (by decide) (by decide)
    (by decide) (by decide) (by decide) zeroed
  have erased : (flashAreaErase primaryImg0 0x1F000 0x2000 zeroed).2.flash 0x28000 = 0xff := by
    rw [call]
    exact (flash 0x28000).trans (if_pos (by decide))
  refine ⟨by rw [call], erased, rfl, by decide, by decide, ?_⟩
  intro contained
  have kept := (contained primaryImg0 (by decide) 0x1F000 0x2000).frame zeroed 0x28000 (by decide)
  rw [erased] at kept
  exact absurd kept (by decide)

end Maskset.Flash
