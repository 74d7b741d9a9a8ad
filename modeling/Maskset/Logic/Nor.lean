import Mathlib.Algebra.Group.Nat.Defs
import Mathlib.Logic.Function.Basic
import Mathlib.Data.List.Perm.Basic

/-!
# NOR flash

A byte-addressed memory with little-endian words. Programming a word can only clear
bits: each of its bytes becomes old AND new. Programming the old word with one byte
replaced is programming that byte alone.
-/

namespace Maskset.Logic.Nor
set_option autoImplicit false

abbrev Addr := BitVec 32
abbrev Byte := BitVec 8
abbrev Memory := Addr → Byte

/-- Byte `k` of a word. -/
def byteOf (v : BitVec 32) (k : Nat) : Byte := v.extractLsb' (8 * k) 8

/-- The byte `x` in lane `k`. -/
def inLane (x : Byte) (k : Nat) : BitVec 32 := x.setWidth 32 <<< (8 * k)

/-- The word at `a`, lowest byte first. -/
def wordAt (mem : Memory) (a : Addr) : BitVec 32 :=
  inLane (mem a) 0 ||| inLane (mem (a + 1)) 1 ||| inLane (mem (a + 2)) 2 ||| inLane (mem (a + 3)) 3

/-- The store of a word in write mode. -/
def programWord (mem : Memory) (a : Addr) (v : BitVec 32) : Memory := fun b =>
  if (b - a).toNat < 4 then mem b &&& byteOf v (b - a).toNat else mem b

/-- The word with lane `k` masked out and the byte added there. -/
def replaceByte (w : BitVec 32) (k : Nat) (x : Byte) : BitVec 32 :=
  (w &&& ~~~(inLane 0xFF k)) + inLane x k

section Lanes

variable {mem : Memory} {a b : Addr} {v w : BitVec 32} {x : Byte} {j k : Nat}

theorem byteOf_or : byteOf (v ||| w) k = byteOf v k ||| byteOf w k := BitVec.extractLsb'_or
theorem byteOf_and : byteOf (v &&& w) k = byteOf v k &&& byteOf w k := BitVec.extractLsb'_and

theorem byteOf_not (lane : k < 4) : byteOf (~~~v) k = ~~~byteOf v k := by
  apply BitVec.eq_of_getLsbD_eq
  intro i hi
  simp [byteOf, hi]
  omega

theorem byteOf_inLane (laneJ : j < 4) (laneK : k < 4) : byteOf (inLane x k) j = if j = k then x else 0 := by
  apply BitVec.eq_of_getLsbD_eq
  intro i hi
  simp only [byteOf, inLane, BitVec.getLsbD_extractLsb', BitVec.getLsbD_shiftLeft, BitVec.getLsbD_setWidth]
  rcases Nat.lt_trichotomy j k with below | rfl | above
  · rw [if_neg (Nat.ne_of_lt below), decide_eq_true (show 8 * j + i < 8 * k by omega)]
    simp
  · rw [if_pos rfl, Nat.add_sub_cancel_left, decide_eq_true (show 8 * j + i < 32 by omega),
      decide_eq_false (show ¬ 8 * j + i < 8 * j by omega), decide_eq_true (show i < 32 by omega), decide_eq_true hi]
    simp
  · have beyond : x.getLsbD (8 * j + i - 8 * k) = false := BitVec.getLsbD_of_ge _ _ (by omega)
    rw [if_neg (Nat.ne_of_gt above), beyond]
    simp

/-- Two words with the same bytes are equal. -/
theorem eq_of_byteOf (same : ∀ k < 4, byteOf v k = byteOf w k) : v = w := by
  apply BitVec.eq_of_getLsbD_eq
  intro i hi
  have bit := congrArg (·.getLsbD (i % 8)) (same (i / 8) (by omega))
  simpa [byteOf, Nat.mod_lt, Nat.div_add_mod] using bit

theorem byteOf_wordAt (lane : k < 4) : byteOf (wordAt mem a) k = mem (a + BitVec.ofNat 32 k) := by
  simp only [wordAt, byteOf_or]
  rw [byteOf_inLane lane (by decide), byteOf_inLane lane (by decide), byteOf_inLane lane (by decide),
    byteOf_inLane lane (by decide)]
  match k, lane with
  | 0, _ => simp
  | 1, _ => simp
  | 2, _ => simp
  | 3, _ => simp

theorem byteOf_replaceByte (laneJ : j < 4) (laneK : k < 4) :
    byteOf (replaceByte w k x) j = if j = k then x else byteOf w j := by
  have lanes {i : Nat} (laneI : i < 4) : byteOf (w &&& ~~~(inLane 0xFF k)) i = if i = k then 0 else byteOf w i := by
    rw [byteOf_and, byteOf_not laneI, byteOf_inLane laneI laneK]
    split
    · exact BitVec.and_zero
    · exact BitVec.and_allOnes
  have disjoint : (w &&& ~~~(inLane 0xFF k)) &&& inLane x k = 0#32 := by
    apply eq_of_byteOf
    intro i laneI
    rw [byteOf_and, lanes laneI, byteOf_inLane laneI laneK]
    split <;> simp [byteOf]
  rw [replaceByte, BitVec.add_eq_or_of_and_eq_zero _ _ disjoint, byteOf_or, lanes laneJ, byteOf_inLane laneJ laneK]
  split <;> simp

theorem toNat_offset (a : Addr) (small : k < 2 ^ 32) : (a + BitVec.ofNat 32 k - a).toNat = k := by
  rw [BitVec.add_comm, BitVec.add_sub_cancel, BitVec.toNat_ofNat, Nat.mod_eq_of_lt small]

theorem add_offset (a b : Addr) : a + BitVec.ofNat 32 (b - a).toNat = b := by
  rw [BitVec.ofNat_toNat, BitVec.setWidth_eq, BitVec.add_comm, BitVec.sub_add_cancel]

/-- **Programming one byte through its word.** -/
theorem programWord_replaceByte (mem : Memory) (a : Addr) (lane : k < 4) (x : Byte) :
    programWord mem a (replaceByte (wordAt mem a) k x) =
      Function.update mem (a + BitVec.ofNat 32 k) (mem (a + BitVec.ofNat 32 k) &&& x) := by
  funext b
  by_cases here : b = a + BitVec.ofNat 32 k
  · subst here
    rw [programWord, toNat_offset a (by omega), if_pos lane, byteOf_replaceByte lane lane, if_pos rfl,
      Function.update_self]
  · rw [Function.update_of_ne here, programWord]
    split
    · rename_i inWord
      have other : (b - a).toNat ≠ k := fun same => here (same ▸ (add_offset a b).symm)
      rw [byteOf_replaceByte inWord lane, if_neg other, byteOf_wordAt inWord, add_offset, BitVec.and_self]
    · rfl

end Lanes

/-- Programming leaves the new value exactly when it sets no bit that the old one has clear. -/
theorem and_eq_right_iff {n : Nat} (old new : BitVec n) : old &&& new = new ↔ new &&& ~~~old = 0#n := by
  constructor
  · intro same
    rw [← same]
    ext k hk
    simp only [BitVec.getElem_and, BitVec.getElem_not, BitVec.getElem_zero]
    cases old[k] <;> simp
  · intro clears
    ext k hk
    have bit : (new &&& ~~~old)[k] = (0#n)[k] := by rw [clears]
    simp only [BitVec.getElem_and, BitVec.getElem_not, BitVec.getElem_zero] at bit ⊢
    revert bit
    cases old[k] <;> cases new[k] <;> simp

/-! ## Programming a range -/

/-- `len` bytes programmed from `addr` on. -/
structure Write where
  addr : Addr
  len : Nat
  src : Nat → Byte

/-- The address is in the range. -/
def Write.Covers (w : Write) (b : Addr) : Prop := (b - w.addr).toNat < w.len

instance (w : Write) (b : Addr) : Decidable (w.Covers b) := inferInstanceAs (Decidable (_ < _))

/-- The memory after the write: old AND new in the range. -/
def Write.apply (w : Write) (mem : Memory) : Memory := fun b =>
  if w.Covers b then mem b &&& w.src (b - w.addr).toNat else mem b

def applyAll (mem : Memory) (ws : List Write) : Memory := ws.foldl (fun mem w => w.apply mem) mem

section Ranges

variable {mem : Memory} {w w' : Write} {ws ws' : List Write} {b : Addr}

theorem apply_zero (mem : Memory) (a : Addr) (src : Nat → Byte) : Write.apply ⟨a, 0, src⟩ mem = mem :=
  funext fun _ => if_neg (Nat.not_lt_zero _)

/-- One more byte at the end of the range. -/
theorem apply_succ (mem : Memory) (a : Addr) (n : Nat) (src : Nat → Byte) (small : n < 2 ^ 32) :
    Function.update (Write.apply ⟨a, n, src⟩ mem) (a + BitVec.ofNat 32 n)
        (Write.apply ⟨a, n, src⟩ mem (a + BitVec.ofNat 32 n) &&& src n) =
      Write.apply ⟨a, n + 1, src⟩ mem := by
  funext b
  by_cases here : b = a + BitVec.ofNat 32 n
  · subst here
    rw [Function.update_self]
    simp only [Write.apply, Write.Covers, toNat_offset a small]
    rw [if_neg (Nat.lt_irrefl n), if_pos (Nat.lt_succ_self n)]
  · rw [Function.update_of_ne here]
    have other : (b - a).toNat ≠ n := fun same => here (same ▸ (add_offset a b).symm)
    have same : Write.Covers ⟨a, n, src⟩ b ↔ Write.Covers ⟨a, n + 1, src⟩ b := by
      simp only [Write.Covers]
      omega
    exact if_congr same rfl rfl

theorem apply_comm (w w' : Write) (mem : Memory) : w.apply (w'.apply mem) = w'.apply (w.apply mem) := by
  funext b
  simp only [Write.apply]
  split
  · split
    · rw [BitVec.and_assoc, BitVec.and_assoc, BitVec.and_comm (w'.src _)]
    · rfl
  · rfl

/-- **The order of the writes does not matter.** -/
theorem applyAll_perm (perm : ws.Perm ws') : applyAll mem ws = applyAll mem ws' :=
  perm.foldl_eq' (fun w _ w' _ mem => apply_comm w' w mem) mem

theorem applyAll_uncovered (out : ∀ w ∈ ws, ¬ w.Covers b) : applyAll mem ws b = mem b := by
  induction ws generalizing mem with
  | nil => rfl
  | cons w ws ih =>
    rw [applyAll, List.foldl_cons]
    refine (ih fun w' within => out w' (List.mem_cons_of_mem _ within)).trans ?_
    rw [Write.apply, if_neg (out w List.mem_cons_self)]

/-- Where only one write goes, it finds the old byte and leaves its own. -/
theorem applyAll_covered (disjoint : ws.Pairwise fun w w' => ∀ b, w.Covers b → ¬ w'.Covers b) (within : w ∈ ws)
    (covers : w.Covers b) : applyAll mem ws b = mem b &&& w.src (b - w.addr).toNat := by
  obtain ⟨before, behind, rfl⟩ := List.append_of_mem within
  have front : (before ++ w :: behind).Perm (w :: (before ++ behind)) := List.perm_middle
  have first := (front.pairwise_iff fun apart b here there => apart b there here).1 disjoint
  have others : ∀ w' ∈ before ++ behind, ¬ w'.Covers b :=
    fun w' within' => (List.pairwise_cons.1 first).1 w' within' b covers
  calc applyAll mem (before ++ w :: behind) b
      = applyAll (w.apply mem) (before ++ behind) b := by rw [applyAll_perm front]; rfl
    _ = w.apply mem b := applyAll_uncovered others
    _ = mem b &&& w.src (b - w.addr).toNat := if_pos covers

end Ranges

end Maskset.Logic.Nor
