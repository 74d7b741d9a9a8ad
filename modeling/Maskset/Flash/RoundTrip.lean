import Maskset.Flash.Erase
import Maskset.Flash.Programming

/-!
# Erase, program, read back

A sector-aligned range is erased; then any list of writes to disjoint byte ranges inside
it succeeds in any order, leaves the same flash, and is read back.
-/

namespace Maskset.Flash
set_option autoImplicit false

open Maskset.Logic.Nor

/-! ## Writing -/

/-- A call of `flash_area_write` on the area. -/
structure WriteCall where
  off : BitVec 32
  src : Nat → Byte
  len : BitVec 32

/-- The call writes the byte at offset `x` of the area. -/
def WriteCall.Writes (w : WriteCall) (x : Nat) : Prop := w.off.toNat ≤ x ∧ x < w.off.toNat + w.len.toNat

instance (w : WriteCall) (x : Nat) : Decidable (w.Writes x) := inferInstanceAs (Decidable (_ ∧ _))

/-- No byte is written by both. -/
def WriteCall.Disjoint (w w' : WriteCall) : Prop := ∀ x, w.Writes x → ¬ w'.Writes x

/-- The call as a write to the device. -/
def WriteCall.range (fa : FlashArea) (w : WriteCall) : Write := fa.range w.off w.src w.len

/-- The calls one after the other; none when one does not return 0. -/
def writeAll (fa : FlashArea) : List WriteCall → Device → Option Device
  | [], d => some d
  | w :: ws, d =>
    match flashAreaWrite fa w.off w.src w.len d with
    | (.returned rc, d) => if rc = 0 then writeAll fa ws d else none
    | (.trapped, _) => none

section Writing

variable {fa : FlashArea} {w : WriteCall} {ws : List WriteCall} {d : Device} {b : Addr}

/-- The bytes of a call inside the area, by their offsets. -/
theorem covers_iff (area : fa ∈ sFlashAreas) (fits : w.off.toNat + w.len.toNat ≤ fa.faSize.toNat) :
    (w.range fa).Covers b ↔ fa.faOff.toNat ≤ b.toNat ∧ w.Writes (b.toNat - fa.faOff.toNat) := by
  have placed := (area_bounds area).2
  have bound := b.isLt
  have start := area_start area w.off (by omega)
  simp only [Write.Covers, WriteCall.range, FlashArea.range, WriteCall.Writes]
  rw [BitVec.toNat_sub, start]
  omega

/-- One write to erased bytes succeeds and leaves them programmed. -/
theorem write_blank (area : fa ∈ sFlashAreas) (fits : w.off.toNat + w.len.toNat ≤ fa.faSize.toNat)
    (blank : ∀ b, (w.range fa).Covers b → d.flash b = 0xff) :
    flashAreaWrite fa w.off w.src w.len d = (.returned 0, written fa w.off w.src w.len d) := by
  rw [flashAreaWrite_accepted (area_bounds area).1 (accepted_of_inside fits), if_pos]
  apply validate_iff.2
  intro i inRange
  have covers : (w.range fa).Covers (fa.faOff + w.off + BitVec.ofNat 32 i) := by
    have bound := w.len.isLt
    rw [Write.Covers, WriteCall.range, FlashArea.range, toNat_offset _ (by omega)]
    exact inRange
  rw [blank _ covers]
  exact BitVec.and_zero

theorem disjoint_covers {w' : WriteCall} (area : fa ∈ sFlashAreas)
    (fits : w.off.toNat + w.len.toNat ≤ fa.faSize.toNat) (fits' : w'.off.toNat + w'.len.toNat ≤ fa.faSize.toNat)
    (apart : w.Disjoint w') : ∀ b, (w.range fa).Covers b → ¬ (w'.range fa).Covers b := by
  intro b covers covers'
  exact apart _ ((covers_iff area fits).1 covers).2 ((covers_iff area fits').1 covers').2

/-- **Writes to disjoint erased ranges** all return 0 and program their bytes. -/
theorem writeAll_eq (area : fa ∈ sFlashAreas) (fits : ∀ w ∈ ws, w.off.toNat + w.len.toNat ≤ fa.faSize.toNat)
    (disjoint : ws.Pairwise WriteCall.Disjoint)
    (blank : ∀ w ∈ ws, ∀ b, (w.range fa).Covers b → d.flash b = 0xff) (idle : d.config = nvmcConfigRen) :
    ∃ d2, writeAll fa ws d = some d2 ∧ d2.flash = applyAll d.flash (ws.map (WriteCall.range fa)) ∧
      d2.config = nvmcConfigRen := by
  induction ws generalizing d with
  | nil => exact ⟨d, rfl, rfl, idle⟩
  | cons w ws ih =>
    obtain ⟨fitsFirst, fitsRest⟩ := List.forall_mem_cons.1 fits
    obtain ⟨blankFirst, blankRest⟩ := List.forall_mem_cons.1 blank
    obtain ⟨apart, disjointRest⟩ := List.pairwise_cons.1 disjoint
    have first := write_blank area fitsFirst blankFirst
    have idle' : (written fa w.off w.src w.len d).config = nvmcConfigRen := by
      rw [written]
      split
      · exact idle
      · rfl
    -- the other calls still find their bytes erased
    have blank' : ∀ w' ∈ ws, ∀ b, (w'.range fa).Covers b → (written fa w.off w.src w.len d).flash b = 0xff := by
      intro w' within b covers'
      have untouched : ¬ (w.range fa).Covers b := fun covers =>
        disjoint_covers area fitsFirst (fitsRest w' within) (apart w' within) b covers covers'
      exact (if_neg untouched).trans (blankRest w' within b covers')
    obtain ⟨d2, rest, flash, config⟩ := ih fitsRest disjointRest blank' idle'
    refine ⟨d2, ?_, flash, config⟩
    rw [writeAll, first]
    exact (if_pos rfl).trans rest

theorem WriteCall.Disjoint.symm {w' : WriteCall} (apart : w.Disjoint w') : w'.Disjoint w :=
  fun x here there => apart x there here

/-- What a call leaves at a byte of its range that was erased and that no other call writes. -/
theorem applyAll_writes {mem : Memory} {x : Nat} (area : fa ∈ sFlashAreas)
    (fits : ∀ w ∈ ws, w.off.toNat + w.len.toNat ≤ fa.faSize.toNat) (disjoint : ws.Pairwise WriteCall.Disjoint)
    (within : w ∈ ws) (writes : w.Writes x) (place : b.toNat = fa.faOff.toNat + x) (blank : mem b = 0xff) :
    applyAll mem (ws.map (WriteCall.range fa)) b = w.src (x - w.off.toNat) := by
  have placed := (area_bounds area).2
  have fit := fits w within
  have covers : (w.range fa).Covers b := by
    refine (covers_iff area fit).2 ⟨by omega, ?_⟩
    rw [place, Nat.add_sub_cancel_left]
    exact writes
  have apart : (ws.map (WriteCall.range fa)).Pairwise fun w w' => ∀ b, w.Covers b → ¬ w'.Covers b :=
    List.pairwise_map.2 (disjoint.imp_of_mem fun {w w'} here there =>
      disjoint_covers area (fits w here) (fits w' there))
  have index : (b - (w.range fa).addr).toNat = x - w.off.toNat := by
    have start := area_start area w.off (by omega)
    obtain ⟨low, high⟩ := writes
    rw [WriteCall.range, FlashArea.range, BitVec.toNat_sub, start]
    omega
  rw [applyAll_covered apart (List.mem_map_of_mem within) covers, blank, index]
  exact BitVec.allOnes_and

/-- A byte no call writes. -/
theorem applyAll_out {mem : Memory} (out : ∀ w ∈ ws, ¬ (w.range fa).Covers b) :
    applyAll mem (ws.map (WriteCall.range fa)) b = mem b := by
  apply applyAll_uncovered
  intro range inMap
  obtain ⟨w, isCall, rfl⟩ := List.mem_map.1 inMap
  exact out w isCall

end Writing

/-- A read of a range inside an area copies its bytes. -/
theorem flashAreaRead_inside {fa : FlashArea} {off len : BitVec 32} (area : fa ∈ sFlashAreas)
    (inside : off.toNat + len.toNat ≤ fa.faSize.toNat) (d : Device) :
    ∃ dst d', flashAreaRead fa off len d = (.returned 0, dst, d') ∧ d'.flash = d.flash ∧ d'.config = d.config ∧
      dst.length = len.toNat ∧ ∀ i < len.toNat, ∃ b : Addr,
        b.toNat = fa.faOff.toNat + (off.toNat + i) ∧ dst[i]? = some (d.flash b) := by
  have accepted := accepted_of_inside inside
  refine ⟨_, _, flashAreaRead_accepted (area_bounds area).1 accepted d, rfl, rfl, ?_, ?_⟩
  · rw [List.length_map, List.length_map, List.length_range]
  intro i here
  refine ⟨fa.faOff + off + BitVec.ofNat 32 i, ?_, ?_⟩
  · rw [area_address area off i (by omega), Nat.add_assoc]
  · rw [List.getElem?_map, List.getElem?_map, List.getElem?_range here]
    rfl

/-- **Erase, program, read back, in any order.** After the erase of an aligned range of an
area, writes to disjoint byte ranges inside it all return 0 in every order and leave the same
flash: the written bytes, 0xff at the other bytes of the range, and every other byte as before
the erase. The controller, in read mode as reset leaves it, is back in it after every call. -/
theorem erase_program_read (fa : FlashArea) (area : fa ∈ sFlashAreas) (off len : BitVec 32)
    (aligned : off.toNat % flashSectorSize = 0) (alignedLen : len.toNat % flashSectorSize = 0)
    (inside : off.toNat + len.toNat ≤ fa.faSize.toNat) (ws : List WriteCall)
    (within : ∀ w ∈ ws, off.toNat ≤ w.off.toNat ∧ w.off.toNat + w.len.toNat ≤ off.toNat + len.toNat)
    (disjoint : ws.Pairwise WriteCall.Disjoint) (d : Device) (idle : d.config = nvmcConfigRen) :
    ∃ d1 flash, flashAreaErase fa off len d = (.returned 0, d1) ∧ d1.config = nvmcConfigRen ∧
      (∀ b, ¬ (fa.faOff.toNat + off.toNat ≤ b.toNat ∧ b.toNat < fa.faOff.toNat + off.toNat + len.toNat) →
        flash b = d.flash b) ∧
      ∀ ws', ws'.Perm ws →
        (∀ done, done <+: ws' → ∃ d2, writeAll fa done d1 = some d2 ∧ d2.config = nvmcConfigRen) ∧
        ∃ d2 dst d3, writeAll fa ws' d1 = some d2 ∧ d2.flash = flash ∧
          flashAreaRead fa off len d2 = (.returned 0, dst, d3) ∧ d3.flash = flash ∧ d3.config = nvmcConfigRen ∧
          dst.length = len.toNat ∧ ∀ i < len.toNat,
            (∀ w ∈ ws, w.Writes (off.toNat + i) → dst[i]? = some (w.src (off.toNat + i - w.off.toNat))) ∧
            ((∀ w ∈ ws, ¬ w.Writes (off.toNat + i)) → dst[i]? = some 0xff) := by
  obtain ⟨d1, erase, idle1, erased⟩ := flashAreaErase_aligned area aligned alignedLen inside idle
  have fits : ∀ w ∈ ws, w.off.toNat + w.len.toNat ≤ fa.faSize.toNat := by
    intro w isCall
    exact Nat.le_trans (within w isCall).2 inside
  have inRange : ∀ w ∈ ws, ∀ b, (w.range fa).Covers b →
      fa.faOff.toNat + off.toNat ≤ b.toNat ∧ b.toNat < fa.faOff.toNat + off.toNat + len.toNat := by
    intro w isCall b covers
    obtain ⟨low, writes⟩ := (covers_iff area (fits w isCall)).1 covers
    have bounds := within w isCall
    simp only [WriteCall.Writes] at writes
    omega
  have blank : ∀ w ∈ ws, ∀ b, (w.range fa).Covers b → d1.flash b = 0xff := by
    intro w isCall b covers
    exact (erased b).trans (if_pos (inRange w isCall b covers))
  have calls : ∀ ws', (∀ w ∈ ws', w ∈ ws) → ws'.Pairwise WriteCall.Disjoint →
      ∃ d2, writeAll fa ws' d1 = some d2 ∧ d2.flash = applyAll d1.flash (ws'.map (WriteCall.range fa)) ∧
        d2.config = nvmcConfigRen := by
    intro ws' sub apart
    exact writeAll_eq area (fun w isCall => fits w (sub w isCall)) apart (fun w isCall => blank w (sub w isCall)) idle1
  refine ⟨d1, applyAll d1.flash (ws.map (WriteCall.range fa)), erase, idle1, ?_, ?_⟩
  · intro b outside
    have out : ∀ w ∈ ws, ¬ (w.range fa).Covers b := fun w isCall covers => outside (inRange w isCall b covers)
    rw [applyAll_out out, erased b, if_neg outside]
  intro ws' perm
  have disjoint' : ws'.Pairwise WriteCall.Disjoint := (perm.pairwise_iff fun apart => apart.symm).2 disjoint
  constructor
  · intro done start
    obtain ⟨d2, run, -, config⟩ := calls done (fun w isCall => perm.subset (start.subset isCall))
      (disjoint'.sublist start.sublist)
    exact ⟨d2, run, config⟩
  obtain ⟨d2, run, flash, config⟩ := calls ws' (fun w isCall => perm.subset isCall) disjoint'
  rw [applyAll_perm (perm.map _)] at flash
  obtain ⟨dst, d3, read, flash', config', length, bytes⟩ := flashAreaRead_inside area inside d2
  refine ⟨d2, dst, d3, run, flash, read, flash'.trans flash, config'.trans config, length, ?_⟩
  intro i here
  obtain ⟨b, place, copied⟩ := bytes i here
  have erasedHere : d1.flash b = 0xff := (erased b).trans (if_pos (by omega))
  rw [copied, flash]
  constructor
  · intro w isCall writes
    rw [applyAll_writes area fits disjoint isCall writes place erasedHere]
  · intro unwritten
    have out : ∀ w ∈ ws, ¬ (w.range fa).Covers b := by
      intro w isCall covers
      have writes := ((covers_iff area (fits w isCall)).1 covers).2
      rw [place, Nat.add_sub_cancel_left] at writes
      exact unwritten w isCall writes
    rw [applyAll_out out, erasedHere]

/-- Two writes that share a word. -/
def wordWrites : List WriteCall := [⟨0x1001, fun _ => 0x12, 2⟩, ⟨0x1003, fun _ => 0x34, 3⟩]

theorem wordWrites_disjoint : wordWrites.Pairwise WriteCall.Disjoint := by
  apply List.pairwise_pair.2
  intro x
  simp only [WriteCall.Writes]
  rw [show (0x1001 : BitVec 32).toNat = 0x1001 from rfl, show (2 : BitVec 32).toNat = 2 from rfl,
    show (0x1003 : BitVec 32).toNat = 0x1003 from rfl]
  omega

theorem erase_program_read_word : ∃ d1 d2 dst d3,
    flashAreaErase primaryImg0 0x1000 0x1000 ⟨fun _ => 0x5a, nvmcConfigRen, []⟩ = (.returned 0, d1) ∧
      writeAll primaryImg0 wordWrites.reverse d1 = some d2 ∧
      flashAreaRead primaryImg0 0x1000 0x1000 d2 = (.returned 0, dst, d3) ∧
      dst[2]? = some 0x12 ∧ dst[3]? = some 0x34 := by
  obtain ⟨d1, flash, erase, -, -, orders⟩ := erase_program_read primaryImg0 (by decide) 0x1000 0x1000 (by decide)
    (by decide) (by decide) wordWrites (by decide) wordWrites_disjoint ⟨fun _ => 0x5a, nvmcConfigRen, []⟩ rfl
  obtain ⟨d2, dst, d3, run, -, read, -, -, -, bytes⟩ := (orders wordWrites.reverse (List.reverse_perm _)).2
  exact ⟨d1, d2, dst, d3, erase, run, read,
    (bytes 2 (by decide)).1 _ (List.mem_cons_self ..) (by decide),
    (bytes 3 (by decide)).1 _ (List.mem_cons_of_mem _ (List.mem_cons_self ..)) (by decide)⟩

end Maskset.Flash
