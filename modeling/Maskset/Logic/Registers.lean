/-!
# Registers with read-only bits

A store to a register keeps the bits of a mask and takes the others from the stored word.
A field is read by shifting the word and masking it; its bits decide it.
-/

namespace Maskset.Logic
set_option autoImplicit false

/-- The register after a store: the bits of `keep` stay. -/
def merge {w : Nat} (keep old new : BitVec w) : BitVec w := (old &&& keep) ||| (new &&& ~~~keep)

section Fields

variable {w k : Nat} {keep old new mask x y : BitVec w}

theorem merge_kept (kept : keep &&& mask = mask) : merge keep old new &&& mask = old &&& mask := by
  have dropped : ~~~keep &&& mask = 0#w := by
    rw [← kept, ← BitVec.and_assoc, BitVec.not_and_self]
    exact BitVec.zero_and
  rw [merge, BitVec.and_or_distrib_right, BitVec.and_assoc, BitVec.and_assoc, kept, dropped, BitVec.and_zero,
    BitVec.or_zero]

theorem merge_stored (stored : keep &&& mask = 0#w) : merge keep old new &&& mask = new &&& mask := by
  have taken : ~~~keep &&& mask = mask := by
    have split : (keep ||| ~~~keep) &&& mask = ~~~keep &&& mask := by
      rw [BitVec.and_or_distrib_right, stored, BitVec.zero_or]
    rw [← split, BitVec.or_not_self, BitVec.allOnes_and]
  rw [merge, BitVec.and_or_distrib_right, BitVec.and_assoc, BitVec.and_assoc, stored, taken, BitVec.and_zero,
    BitVec.zero_or]

/-- A field is decided by its bits. -/
theorem field_congr (whole : (mask <<< k) >>> k = mask) (same : x &&& (mask <<< k) = y &&& (mask <<< k)) :
    (x >>> k) &&& mask = (y >>> k) &&& mask := by
  have cut (z : BitVec w) : (z >>> k) &&& mask = (z &&& (mask <<< k)) >>> k := by
    rw [BitVec.ushiftRight_and_distrib, whole]
  rw [cut, cut, same]

/-- A store does not change a read-only field. -/
theorem field_merge (whole : (mask <<< k) >>> k = mask) (kept : keep &&& (mask <<< k) = mask <<< k) :
    (merge keep old new >>> k) &&& mask = (old >>> k) &&& mask := field_congr whole (merge_kept kept)

end Fields

end Maskset.Logic
