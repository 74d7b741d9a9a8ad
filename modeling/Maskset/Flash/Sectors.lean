import Maskset.Flash.Erase

/-!
# Sector enumeration

`flash_area_get_sectors` and the lookups around it. An `int` id is cut to eight bits before the
lookup and the result is used unchecked, so the call is right for the ids of the areas and for
no other id: it either enumerates another area or reads through a null pointer.
-/

namespace Maskset.Flash
set_option autoImplicit false

open Maskset.Logic.Nor

def mcubootMaxImgSectors : Nat := 128

structure FlashSector where
  fsOff : BitVec 32
  fsSize : BitVec 32
deriving DecidableEq

/-- What `count` and `sectors` point to. -/
structure SectorsOut where
  count : BitVec 32
  sectors : Nat → FlashSector

/-- The id of a slot, and the log line for one it does not know. An `int` is a word. -/
def flashAreaIdFromMultiImageSlot (imageIndex slot : Int) (d : Device) : BitVec 32 × Device :=
  if slot = 0 then ((flashAreaImagePrimary imageIndex).setWidth 32, d)
  else if slot = 1 then ((flashAreaImageSecondary imageIndex).setWidth 32, d)
  else (-1, d.logErr "Unexpected Request: image_index=%d, slot=%d"
    [.num (BitVec.ofInt 32 imageIndex), .num (BitVec.ofInt 32 slot)])

/-- `none` is the null pointer. -/
def prvLookupFlashArea (id : BitVec 8) : Option FlashArea := sFlashAreas.find? fun area => id = area.faId

/-- The loop of `flash_area_get_sectors` from `off` on, with at most `n` iterations. -/
def getSectorsLoop (faSize : BitVec 32) : Nat → BitVec 32 → BitVec 32 → (Nat → FlashSector) →
    BitVec 32 × (Nat → FlashSector)
  | 0, _, totalCount, sectors => (totalCount, sectors)
  | n + 1, off, totalCount, sectors =>
    if off < faSize then
      getSectorsLoop faSize n (off + BitVec.ofNat 32 flashSectorSize) (totalCount + 1)
        (Function.update sectors totalCount.toNat ⟨off, BitVec.ofNat 32 flashSectorSize⟩)
    else (totalCount, sectors)

/-- The code and what is pointed to afterwards; `none` when it reads through a null pointer. -/
def flashAreaGetSectors (faId : BitVec 32) (out : SectorsOut) : Option (Int × SectorsOut) :=
  match prvLookupFlashArea (faId.setWidth 8) with
  | none => none
  | some fa =>
    if fa.faDeviceId ≠ flashDeviceInternalFlash then some (-1, out)
    else
      let (totalCount, sectors) := getSectorsLoop fa.faSize fa.faSize.toNat 0 0 out.sectors
      some (0, ⟨totalCount, sectors⟩)

/-! ## What is asked of the enumeration -/

/-- The id is the one of the area. -/
def IsId (faId : BitVec 32) (fa : FlashArea) : Prop := faId.toInt = fa.faId.toNat

instance (faId : BitVec 32) (fa : FlashArea) : Decidable (IsId faId fa) := inferInstanceAs (Decidable (_ = _))

/-- The offset lies in the sector. -/
def FlashSector.Contains (s : FlashSector) (x : Nat) : Prop := s.fsOff.toNat ≤ x ∧ x < s.fsOff.toNat + s.fsSize.toNat

instance (s : FlashSector) (x : Nat) : Decidable (s.Contains x) := inferInstanceAs (Decidable (_ ∧ _))

/-- The erases of the sectors one after the other; none when one does not return 0. -/
def eraseAll (fa : FlashArea) : List FlashSector → Device → Option Device
  | [], d => some d
  | s :: ss, d =>
    match flashAreaErase fa s.fsOff s.fsSize d with
    | (.returned rc, d) => if rc = 0 then eraseAll fa ss d else none
    | (.trapped, _) => none

/-- The reported sectors partition the area, and erasing them erases it. -/
structure Enumerates (fa : FlashArea) (out : SectorsOut) : Prop where
  atMost : out.count.toNat ≤ mcubootMaxImgSectors
  ascending : ∀ j k, j < k → k < out.count.toNat → (out.sectors j).fsOff.toNat < (out.sectors k).fsOff.toNat
  covers : ∀ x < fa.faSize.toNat, ∃ k < out.count.toNat, (out.sectors k).Contains x
  apart : ∀ j < out.count.toNat, ∀ k < out.count.toNat, ∀ x,
    (out.sectors j).Contains x → (out.sectors k).Contains x → j = k
  inside : ∀ k < out.count.toNat, ∀ x, (out.sectors k).Contains x → x < fa.faSize.toNat
  accepted : ∀ k < out.count.toNat, ∀ d,
    ∃ d', flashAreaErase fa (out.sectors k).fsOff (out.sectors k).fsSize d = (.returned 0, d')
  erases : ∀ order : List Nat, order.Perm (List.range out.count.toNat) → ∀ d,
    ∃ d', eraseAll fa (order.map out.sectors) d = some d' ∧
      ∀ b, d'.flash b = if Inside fa b then 0xff else d.flash b

/-- What is asked of a call with the id, whatever `count` and `sectors` point to. -/
structure Enumerated (faId : BitVec 32) : Prop where
  known : ∀ fa ∈ sFlashAreas, IsId faId fa → ∀ out,
    ∃ out', flashAreaGetSectors faId out = some (0, out') ∧ Enumerates fa out'
  unknown : (∀ fa ∈ sFlashAreas, ¬ IsId faId fa) → ∀ out,
    ∃ rc, flashAreaGetSectors faId out = some (rc, out) ∧ rc ≠ 0

section Loop

variable {faSize : BitVec 32} {sectors : Nat → FlashSector} {n j count : Nat}

/-- Sector `k` of an area. -/
def sectorAt (k : Nat) : FlashSector := ⟨BitVec.ofNat 32 (flashSectorSize * k), BitVec.ofNat 32 flashSectorSize⟩

theorem sectorAt_off {k : Nat} (small : flashSectorSize * k < 2 ^ 32) :
    (sectorAt k).fsOff.toNat = flashSectorSize * k := by
  rw [sectorAt, BitVec.toNat_ofNat, Nat.mod_eq_of_lt small]

theorem sectorAt_size (k : Nat) : (sectorAt k).fsSize.toNat = flashSectorSize := rfl

/-- The loop from sector `j` on fills in the other sectors of the area and counts them. -/
theorem getSectorsLoop_eq (whole : faSize.toNat = flashSectorSize * count) (enough : count ≤ j + n)
    (inRange : j ≤ count) :
    getSectorsLoop faSize n (BitVec.ofNat 32 (flashSectorSize * j)) (BitVec.ofNat 32 j) sectors =
      (BitVec.ofNat 32 count, fun k => if j ≤ k ∧ k < count then sectorAt k else sectors k) := by
  have bound := faSize.isLt
  induction n generalizing j sectors with
  | zero =>
    obtain rfl : j = count := Nat.le_antisymm inRange enough
    rw [getSectorsLoop]
    congr 1
    funext k
    rw [if_neg (by omega)]
  | succ n ih =>
    have small : flashSectorSize * j < 2 ^ 32 := by
      rw [whole] at bound
      exact Nat.lt_of_le_of_lt (Nat.mul_le_mul_left _ inRange) bound
    have place : (BitVec.ofNat 32 (flashSectorSize * j)).toNat = flashSectorSize * j := by
      rw [BitVec.toNat_ofNat, Nat.mod_eq_of_lt small]
    rw [getSectorsLoop]
    split
    · rename_i more
      rw [BitVec.lt_def, place, whole] at more
      have before : j < count := Nat.lt_of_mul_lt_mul_left more
      have index : (BitVec.ofNat 32 j).toNat = j := by
        simp only [flashSectorSize] at small
        rw [BitVec.toNat_ofNat, Nat.mod_eq_of_lt (by omega)]
      have nextOff : BitVec.ofNat 32 (flashSectorSize * j) + BitVec.ofNat 32 flashSectorSize =
          BitVec.ofNat 32 (flashSectorSize * (j + 1)) := by
        rw [← BitVec.ofNat_add, Nat.mul_succ]
      have nextCount : BitVec.ofNat 32 j + 1 = BitVec.ofNat 32 (j + 1) := by
        rw [BitVec.ofNat_add]
        rfl
      rw [nextOff, nextCount, ih (by omega) before, index]
      congr 1
      funext k
      rcases Nat.lt_trichotomy k j with below | rfl | above
      · rw [if_neg (by omega), if_neg (by omega), Function.update_of_ne (Nat.ne_of_lt below)]
      · rw [if_neg (by omega), if_pos (by omega), Function.update_self]
        rfl
      · by_cases inside : k < count
        · rw [if_pos (by omega), if_pos (by omega)]
        · rw [if_neg (by omega), if_neg (by omega), Function.update_of_ne (Nat.ne_of_gt above)]
    · rename_i finished
      rw [BitVec.lt_def, place, whole] at finished
      have last : j = count := by
        apply Nat.le_antisymm inRange
        exact Nat.le_of_mul_le_mul_left (Nat.le_of_not_lt finished) (by decide)
      subst last
      congr 1
      funext k
      rw [if_neg (by omega)]

end Loop

section Erases

variable {fa : FlashArea} {ss : List FlashSector} {d : Device}

/-- The address lies in the sector of the area. -/
def FlashSector.Covers (s : FlashSector) (fa : FlashArea) (b : Addr) : Prop :=
  fa.faOff.toNat + s.fsOff.toNat ≤ b.toNat ∧ b.toNat < fa.faOff.toNat + s.fsOff.toNat + s.fsSize.toNat

instance (s : FlashSector) (fa : FlashArea) (b : Addr) : Decidable (s.Covers fa b) :=
  inferInstanceAs (Decidable (_ ∧ _))

/-- A sector that `flash_area_erase` accepts and that lies in the area. -/
def FlashSector.Fits (s : FlashSector) (fa : FlashArea) : Prop :=
  Aligned s.fsOff s.fsSize ∧ s.fsOff.toNat + s.fsSize.toNat ≤ fa.faSize.toNat

theorem erase_fits {s : FlashSector} (area : fa ∈ sFlashAreas) (fits : s.Fits fa) (d : Device) :
    ∃ d', flashAreaErase fa s.fsOff s.fsSize d = (.returned 0, d') ∧
      ∀ b, d'.flash b = if s.Covers fa b then 0xff else d.flash b := by
  obtain ⟨internal, placed⟩ := area_bounds area
  obtain ⟨aligned, inside⟩ := fits
  obtain ⟨call, flash⟩ := flashAreaErase_erases internal aligned.1 aligned.2 (area_aligned area)
    (area_start area s.fsOff (by omega)) (by omega) d
  exact ⟨_, call, flash⟩

/-- Sectors that fit are all erased, and nothing else is. -/
theorem eraseAll_eq (area : fa ∈ sFlashAreas) (fits : ∀ s ∈ ss, s.Fits fa) (d : Device) :
    ∃ d', eraseAll fa ss d = some d' ∧ ∀ b, d'.flash b = if ∃ s ∈ ss, s.Covers fa b then 0xff else d.flash b := by
  induction ss generalizing d with
  | nil =>
    refine ⟨d, rfl, ?_⟩
    intro b
    rw [if_neg (by simp)]
  | cons s ss ih =>
    obtain ⟨fitsFirst, fitsRest⟩ := List.forall_mem_cons.1 fits
    obtain ⟨d1, first, flash1⟩ := erase_fits area fitsFirst d
    obtain ⟨d2, rest, flash2⟩ := ih fitsRest d1
    refine ⟨d2, ?_, ?_⟩
    · rw [eraseAll, first]
      exact (if_pos rfl).trans rest
    · intro b
      rw [flash2 b, flash1 b]
      by_cases here : s.Covers fa b
      · rw [if_pos here, ite_self, if_pos ⟨s, List.mem_cons_self, here⟩]
      · rw [if_neg here]
        simp only [List.exists_mem_cons_iff, here, false_or]

end Erases

section Partition

variable {fa : FlashArea} {out : SectorsOut} {count k : Nat}

/-- The sectors of an area of whole sectors. -/
structure Reports (fa : FlashArea) (count : Nat) (out : SectorsOut) : Prop where
  whole : fa.faSize.toNat = flashSectorSize * count
  counted : out.count.toNat = count
  listed : ∀ k < count, out.sectors k = sectorAt k

theorem Reports.small (reports : Reports fa count out) (inRange : k < count) : flashSectorSize * k < 2 ^ 32 := by
  have bound := fa.faSize.isLt
  rw [reports.whole] at bound
  exact Nat.lt_of_le_of_lt (Nat.mul_le_mul_left _ (Nat.le_of_lt inRange)) bound

/-- Sector `k` holds the offsets whose quotient is `k`. -/
theorem Reports.contains_iff (reports : Reports fa count out) (inRange : k < count) (x : Nat) :
    (out.sectors k).Contains x ↔ x / flashSectorSize = k := by
  rw [FlashSector.Contains, reports.listed k inRange, sectorAt_off (reports.small inRange), sectorAt_size]
  simp only [flashSectorSize]
  omega

theorem Reports.quotient_lt (reports : Reports fa count out) {x : Nat} (inside : x < fa.faSize.toNat) :
    x / flashSectorSize < count := by
  rw [reports.whole] at inside
  exact Nat.div_lt_of_lt_mul inside

theorem Reports.fits (reports : Reports fa count out) (inRange : k < count) : (out.sectors k).Fits fa := by
  rw [FlashSector.Fits, Aligned, reports.listed k inRange, sectorAt_off (reports.small inRange), sectorAt_size,
    reports.whole, ← Nat.mul_succ]
  refine ⟨⟨Nat.mul_mod_right _ _, Nat.mod_self _⟩, Nat.mul_le_mul_left _ inRange⟩

/-- The addresses of the sectors are those of the area. -/
theorem Reports.covers_iff (reports : Reports fa count out) (b : Addr) :
    (∃ k < count, (out.sectors k).Covers fa b) ↔ Inside fa b := by
  unfold FlashSector.Covers Inside
  constructor
  · rintro ⟨k, inRange, low, high⟩
    have fits := (reports.fits inRange).2
    omega
  · rintro ⟨low, high⟩
    have quotient := reports.quotient_lt (x := b.toNat - fa.faOff.toNat) (by omega)
    obtain ⟨low', high'⟩ := (reports.contains_iff quotient _).2 rfl
    exact ⟨_, quotient, by omega, by omega⟩

/-- **Such a report partitions the area**, and erasing its sectors erases the area. -/
theorem Reports.enumerates (reports : Reports fa count out) (area : fa ∈ sFlashAreas)
    (atMost : count ≤ mcubootMaxImgSectors) : Enumerates fa out := by
  have counted := reports.counted
  constructor
  · rw [counted]
    exact atMost
  · intro j k before inRange
    rw [counted] at inRange
    rw [reports.listed k inRange, reports.listed j (Nat.lt_trans before inRange), sectorAt_off (reports.small inRange),
      sectorAt_off (reports.small (Nat.lt_trans before inRange))]
    exact Nat.mul_lt_mul_of_pos_left before (by decide)
  · intro x inside
    rw [counted]
    have quotient := reports.quotient_lt inside
    exact ⟨_, quotient, (reports.contains_iff quotient x).2 rfl⟩
  · intro j inRange1 k inRange2 x here there
    rw [counted] at inRange1 inRange2
    exact ((reports.contains_iff inRange1 x).1 here).symm.trans ((reports.contains_iff inRange2 x).1 there)
  · intro k inRange x contained
    rw [counted] at inRange
    have fits := (reports.fits inRange).2
    exact Nat.lt_of_lt_of_le contained.2 fits
  · intro k inRange d
    rw [counted] at inRange
    obtain ⟨d', call, -⟩ := erase_fits area (reports.fits inRange) d
    exact ⟨d', call⟩
  · intro order perm d
    rw [counted] at perm
    have fits : ∀ s ∈ order.map out.sectors, s.Fits fa := by
      intro s listed
      obtain ⟨k, inOrder, rfl⟩ := List.mem_map.1 listed
      exact reports.fits (List.mem_range.1 (perm.subset inOrder))
    obtain ⟨d', run, flash⟩ := eraseAll_eq area fits d
    refine ⟨d', run, ?_⟩
    intro b
    have same : (∃ s ∈ order.map out.sectors, s.Covers fa b) ↔ Inside fa b := by
      rw [← reports.covers_iff b]
      simp only [List.mem_map, exists_exists_and_eq_and, perm.mem_iff, List.mem_range]
    rw [flash b]
    exact if_congr same rfl rfl

end Partition

/-! ## The call -/

section Call

variable {faId : BitVec 32} {fa : FlashArea}

theorem lookup_of_isId (area : fa ∈ sFlashAreas) (isId : IsId faId fa) :
    prvLookupFlashArea (faId.setWidth 8) = some fa := by
  have cut : faId.setWidth 8 = fa.faId := by
    apply BitVec.eq_of_toNat_eq
    have bound := fa.faId.isLt
    rw [IsId, BitVec.toInt_eq_toNat_cond] at isId
    rw [BitVec.toNat_setWidth]
    split at isId <;> omega
  have found : ∀ fa ∈ sFlashAreas, prvLookupFlashArea fa.faId = some fa := by decide
  rw [cut]
  exact found fa area

/-- The call with the id of an area reports its sectors. -/
theorem getSectors_reports (area : fa ∈ sFlashAreas) (isId : IsId faId fa) (out : SectorsOut) :
    ∃ out', flashAreaGetSectors faId out = some (0, out') ∧ Reports fa (fa.faSize.toNat / flashSectorSize) out' := by
  have wholes : ∀ fa ∈ sFlashAreas, fa.faSize.toNat = flashSectorSize * (fa.faSize.toNat / flashSectorSize) := by
    decide
  have whole := wholes fa area
  have bound := fa.faSize.isLt
  generalize fa.faSize.toNat / flashSectorSize = count at whole ⊢
  have enough : count ≤ 0 + fa.faSize.toNat := by
    rw [whole, Nat.zero_add]
    exact Nat.le_mul_of_pos_left count (by decide)
  have loop := @getSectorsLoop_eq fa.faSize out.sectors fa.faSize.toNat 0 count whole enough (Nat.zero_le _)
  refine ⟨⟨BitVec.ofNat 32 count, fun k => if 0 ≤ k ∧ k < count then sectorAt k else out.sectors k⟩, ?_, ?_⟩
  · rw [flashAreaGetSectors, lookup_of_isId area isId]
    dsimp only
    rw [if_neg (not_not_intro (area_bounds area).1)]
    exact congrArg (fun r : BitVec 32 × (Nat → FlashSector) => some ((0 : Int), SectorsOut.mk r.1 r.2)) loop
  · constructor
    · exact whole
    · simp only [flashSectorSize] at whole
      rw [BitVec.toNat_ofNat, Nat.mod_eq_of_lt (by omega)]
    · intro k inRange
      exact if_pos ⟨Nat.zero_le k, inRange⟩

theorem getSectors_null (null : prvLookupFlashArea (faId.setWidth 8) = none) (out : SectorsOut) :
    flashAreaGetSectors faId out = none := by
  rw [flashAreaGetSectors, null]

/-- With any other id the call does not fail as it should: it goes through or reads through null. -/
theorem getSectors_unknown (out : SectorsOut) (rc : Int) (call : flashAreaGetSectors faId out = some (rc, out)) :
    rc = 0 := by
  unfold flashAreaGetSectors at call
  split at call
  · cases call
  · rename_i fa found
    have area : fa ∈ sFlashAreas := List.mem_of_find?_eq_some found
    rw [if_neg (not_not_intro (area_bounds area).1)] at call
    exact (Prod.mk.inj (Option.some.inj call)).1.symm

end Call

/-- **The enumeration is right exactly for the ids of the areas.** -/
theorem enumerated_iff (faId : BitVec 32) : Enumerated faId ↔ ∃ fa ∈ sFlashAreas, IsId faId fa := by
  constructor
  · intro enumerated
    by_contra none
    have unknown : ∀ fa ∈ sFlashAreas, ¬ IsId faId fa := fun fa area isId => none ⟨fa, area, isId⟩
    obtain ⟨rc, call, refused⟩ := enumerated.unknown unknown ⟨0, fun _ => ⟨0, 0⟩⟩
    exact refused (getSectors_unknown _ rc call)
  · rintro ⟨fa, area, isId⟩
    have few : ∀ fa ∈ sFlashAreas, fa.faSize.toNat / flashSectorSize ≤ mcubootMaxImgSectors := by decide
    constructor
    · intro fa' area' isId' out
      obtain ⟨out', call, reports⟩ := getSectors_reports area' isId' out
      exact ⟨out', call, reports.enumerates area' (few fa' area')⟩
    · intro unknown
      exact (unknown fa area isId).elim

/-- The -1 of an unknown slot reads through a null pointer. -/
theorem unknown_slot (imageIndex slot : Int) (unknown : slot ≠ 0 ∧ slot ≠ 1) (d : Device) (out : SectorsOut) :
    flashAreaGetSectors (flashAreaIdFromMultiImageSlot imageIndex slot d).1 out = none := by
  apply getSectors_null
  rw [flashAreaIdFromMultiImageSlot, if_neg unknown.1, if_neg unknown.2]
  change prvLookupFlashArea (BitVec.setWidth 8 (-1 : BitVec 32)) = none
  decide

/-- So does the id -1 itself, and the id 256 enumerates the bootloader. -/
theorem null_dereferenced :
    (flashAreaGetSectors (-1) ⟨0, fun _ => ⟨0, 0⟩⟩ = none ∧ ¬ Enumerated (-1)) ∧
      ((flashAreaGetSectors 256 ⟨0, fun _ => ⟨0, 0⟩⟩).map Prod.fst = some 0 ∧ ¬ Enumerated 256) := by
  have null : flashAreaGetSectors (-1) ⟨0, fun _ => ⟨0, 0⟩⟩ = none := getSectors_null (by decide) _
  have cut : flashAreaGetSectors 256 = flashAreaGetSectors 0 := rfl
  obtain ⟨out, call, -⟩ := @getSectors_reports 0 bootloader (by decide) (by decide) ⟨0, fun _ => ⟨0, 0⟩⟩
  refine ⟨⟨null, ?_⟩, ?_, ?_⟩
  · intro enumerated
    obtain ⟨rc, call, -⟩ := enumerated.unknown (by decide) ⟨0, fun _ => ⟨0, 0⟩⟩
    rw [null] at call
    cases call
  · rw [cut, call]
    rfl
  · intro enumerated
    obtain ⟨rc, call, refused⟩ := enumerated.unknown (by decide) ⟨0, fun _ => ⟨0, 0⟩⟩
    exact refused (getSectors_unknown _ rc call)

end Maskset.Flash
