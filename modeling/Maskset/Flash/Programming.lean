import Maskset.Flash.Containment

/-!
# Programming bytes through words

`flash_area_write` rewrites whole words, byte by byte. On the flash this is the byte-level
model: each byte of the range becomes old AND new, and no other byte changes. The check
behind it accepts exactly the sources that only clear bits.
-/

namespace Maskset.Flash
set_option autoImplicit false

open Maskset.Logic.Nor

section Programming

variable {fa : FlashArea} {off len : BitVec 32} {d : Device} {src : Nat → Byte} {b : Addr} {i : Nat}

/-- The byte at index `i` of an accepted write. -/
theorem written_range (inRange : i < len.toNat) :
    (written fa off src len d).flash (fa.faOff + off + BitVec.ofNat 32 i) =
      d.flash (fa.faOff + off + BitVec.ofNat 32 i) &&& src i := by
  have bound := len.isLt
  have index : (fa.faOff + off + BitVec.ofNat 32 i - (fa.faOff + off)).toNat = i := toNat_offset _ (by omega)
  have covers : (fa.range off src len).Covers (fa.faOff + off + BitVec.ofNat 32 i) := by
    rw [Write.Covers, FlashArea.range, index]
    exact inRange
  have programmed : (written fa off src len d).flash (fa.faOff + off + BitVec.ofNat 32 i) = _ := if_pos covers
  rw [programmed, show (fa.range off src len).addr = fa.faOff + off from rfl, index]
  rfl

/-- A byte that is not in the range. -/
theorem written_other (other : ∀ i < len.toNat, b ≠ fa.faOff + off + BitVec.ofNat 32 i) :
    (written fa off src len d).flash b = d.flash b := by
  apply if_neg
  intro (covers : (b - (fa.faOff + off)).toNat < len.toNat)
  exact other _ covers (add_offset (fa.faOff + off) b).symm

/-- The check of a write finds every byte of the source exactly when it only clears bits. -/
theorem validate_iff :
    (∀ i < len.toNat, (written fa off src len d).flash (fa.faOff + off + BitVec.ofNat 32 i) = src i) ↔
      ∀ i < len.toNat, src i &&& ~~~d.flash (fa.faOff + off + BitVec.ofNat 32 i) = 0 := by
  apply forall_congr'
  intro i
  apply imp_congr_right
  intro inRange
  rw [written_range inRange]
  exact and_eq_right_iff _ _

end Programming

/-- **A write inside an area is the byte-level one**: old AND new in the range, every other
byte unchanged. It returns 0 exactly when the source sets no bit that is clear, and is
trapped otherwise. -/
theorem write_programs (fa : FlashArea) (area : fa ∈ sFlashAreas) (off len : BitVec 32)
    (fits : off.toNat + len.toNat ≤ fa.faSize.toNat) (src : Nat → Byte) (d : Device) :
    ∃ outcome d', flashAreaWrite fa off src len d = (outcome, d') ∧
      (∀ i < len.toNat, d'.flash (fa.faOff + off + BitVec.ofNat 32 i) =
        d.flash (fa.faOff + off + BitVec.ofNat 32 i) &&& src i) ∧
      (∀ b, (∀ i < len.toNat, b ≠ fa.faOff + off + BitVec.ofNat 32 i) → d'.flash b = d.flash b) ∧
      (outcome = .returned 0 ↔ ∀ i < len.toNat, src i &&& ~~~d.flash (fa.faOff + off + BitVec.ofNat 32 i) = 0) ∧
      (outcome ≠ .returned 0 → outcome = .trapped) := by
  have check := @validate_iff fa off len d src
  rw [flashAreaWrite_accepted (area_bounds area).1 (accepted_of_inside fits)]
  split
  · rename_i found
    refine ⟨_, _, rfl, ?_, ?_, ?_, ?_⟩
    · intro i inRange
      exact written_range inRange
    · intro b other
      exact written_other other
    · exact iff_of_true rfl (check.1 found)
    · intro failed
      exact (failed rfl).elim
  · rename_i differs
    refine ⟨_, _, rfl, ?_, ?_, ?_, ?_⟩
    · intro i inRange
      exact written_range inRange
    · intro b other
      exact written_other other
    · exact iff_of_false Outcome.noConfusion (mt check.2 differs)
    · intro _
      rfl

/-- Flash in which every byte has its high half cleared. -/
def halfCleared : Device := ⟨fun _ => 0x0F, nvmcConfigRen, []⟩

/-- Three bytes over the end of a word; only the first source byte keeps to the clear bits. -/
theorem write_programs_halfCleared :
    ∃ d', flashAreaWrite primaryImg0 3 (fun i => BitVec.ofNat 8 (0x0C + 0x20 * i)) 3 halfCleared = (.trapped, d') ∧
      d'.flash 0x8004 = 0x0C ∧ d'.flash 0x8006 = 0x0F := by
  obtain ⟨outcome, d', call, range, other, returns, traps⟩ := write_programs primaryImg0 (by decide) 3 3 (by decide)
    (fun i => BitVec.ofNat 8 (0x0C + 0x20 * i)) halfCleared
  have trapped : outcome = .trapped := traps fun zero => absurd (returns.1 zero 1 (by decide)) (by decide)
  subst trapped
  exact ⟨d', call, range 1 (by decide), other 0x8006 (by decide)⟩

end Maskset.Flash
