import Mathlib.Logic.Basic

/-!
# `_sbrk`

The newlib heap hook, the same function in both images. A pointer is its offset in
`s_newlib_heap`; an `int` is a word, read with `toInt`. The guard refuses the
increments that fit and lets the others through, from every index in the heap.
-/

namespace Maskset.Heap
set_option autoImplicit false

/-- `sizeof(s_newlib_heap)`. -/
def heapSize : Nat := 2048

/-- The statics of `_sbrk`, and what it has logged. -/
structure HeapState where
  sIndex : BitVec 32 := 0
  log : List String := []
deriving DecidableEq

/-- The pointer is `none` when it is null. -/
def sbrk (incr : BitVec 32) (h : HeapState) : Option (BitVec 32) × HeapState :=
  if (h.sIndex + incr).toNat ≤ heapSize then (none, { h with log := h.log ++ ["Out of Memory!"] })
  else (some h.sIndex, { h with sIndex := h.sIndex + incr })

/-! ## A bump allocator -/

/-- The integer an increment leads to. -/
def target (sIndex incr : BitVec 32) : Int := sIndex.toNat + incr.toInt

/-- There is room for the increment. -/
def Fits (sIndex incr : BitVec 32) : Prop := 0 ≤ target sIndex incr ∧ target sIndex incr ≤ heapSize

instance (sIndex incr : BitVec 32) : Decidable (Fits sIndex incr) := inferInstanceAs (Decidable (_ ∧ _))

/-- The bytes that were handed out and not given back, after a call. -/
def liveAfter (live : Nat → Prop) (sIndex incr : BitVec 32) : Option (BitVec 32) → Nat → Prop
  | none, a => live a
  | some _, a =>
    if 0 ≤ incr.toInt then live a ∨ (sIndex.toNat ≤ a ∧ (a : Int) < target sIndex incr)
    else live a ∧ ¬ (target sIndex incr ≤ a ∧ a < sIndex.toNat)

/-- What is asked of a call that finds `sIndex`, returns `result` and leaves `sIndex'`. -/
structure CallSafe (live : Nat → Prop) (sIndex incr : BitVec 32) (result : Option (BitVec 32))
    (sIndex' : BitVec 32) : Prop where
  inHeap : sIndex'.toNat ≤ heapSize
  succeeds : result.isSome ↔ Fits sIndex incr
  start : ∀ p, result = some p → 0 ≤ incr.toInt → p = sIndex
  block : result.isSome → 0 ≤ incr.toInt → ∀ a : Nat, sIndex.toNat ≤ a → (a : Int) < target sIndex incr →
    a < heapSize ∧ ¬ live a
  unchanged : result = none → sIndex' = sIndex

/-- Every call of the sequence is safe. -/
def SafeFrom (live : Nat → Prop) (h : HeapState) : List (BitVec 32) → Prop
  | [] => h.sIndex.toNat ≤ heapSize
  | incr :: incrs =>
    let (result, h') := sbrk incr h
    CallSafe live h.sIndex incr result h'.sIndex ∧ SafeFrom (liveAfter live h.sIndex incr result) h' incrs

/-- The calls, made from the initial heap, are those of a safe bump allocator. -/
def BumpSafe (incrs : List (BitVec 32)) : Prop := SafeFrom (fun _ => False) {} incrs

section Sbrk

variable {sIndex incr p : BitVec 32} {live : Nat → Prop} {h : HeapState}

/-- The wrapped sum is in the heap exactly when the sum over the integers is. -/
theorem toNat_add_le_iff (inHeap : sIndex.toNat ≤ heapSize) :
    (sIndex + incr).toNat ≤ heapSize ↔ Fits sIndex incr := by
  simp only [Fits, target, heapSize] at *
  rw [BitVec.toNat_add, BitVec.toInt_eq_toNat_cond]
  split <;> omega

/-- **The guard is inverted**: a call succeeds exactly when there is no room for it. -/
theorem sbrk_isSome_iff (inHeap : h.sIndex.toNat ≤ heapSize) :
    (sbrk incr h).1.isSome ↔ ¬ Fits h.sIndex incr := by
  rw [← toNat_add_le_iff inHeap]
  unfold sbrk
  split
  · rename_i inside
    exact iff_of_false Bool.false_ne_true (not_not_intro inside)
  · rename_i beyond
    exact iff_of_true rfl beyond

/-- No call on an index in the heap is safe. -/
theorem not_callSafe (inHeap : h.sIndex.toNat ≤ heapSize) :
    ¬ CallSafe live h.sIndex incr (sbrk incr h).1 (sbrk incr h).2.sIndex := by
  intro safe
  have inverted : (sbrk incr h).1.isSome ↔ ¬ Fits h.sIndex incr := sbrk_isSome_iff inHeap
  exact iff_not_self (safe.succeeds.symm.trans inverted)

/-- A call that goes through leaves the heap. -/
theorem sbrk_leaves (success : (sbrk incr h).1 = some p) : heapSize < (sbrk incr h).2.sIndex.toNat := by
  unfold sbrk at *
  split at success
  · cases success
  · rename_i beyond
    rw [if_neg beyond]
    exact Nat.lt_of_not_le beyond

end Sbrk

/-- **No sequence of calls is safe** but the empty one. -/
theorem bumpSafe_iff (incrs : List (BitVec 32)) : BumpSafe incrs ↔ incrs = [] := by
  have inHeap : ({} : HeapState).sIndex.toNat ≤ heapSize := by decide
  constructor
  · intro safe
    cases incrs with
    | nil => rfl
    | cons incr incrs => exact (not_callSafe inHeap safe.1).elim
  · rintro rfl
    exact inHeap

/-- The first `_sbrk(16)` finds 2048 free bytes and is refused. -/
theorem sixteen_refused : (sbrk 16 {}).1 = none ∧ ¬ BumpSafe [16] := by
  refine ⟨by decide, ?_⟩
  intro safe
  have granted : (sbrk 16 {}).1.isSome := safe.1.succeeds.2 (by decide)
  exact absurd granted (by decide)

end Maskset.Heap
