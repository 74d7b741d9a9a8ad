import Maskset.Logic.Nor

/-!
# Word loops

Ranges of a byte-addressed memory that are overwritten, and the loops that overwrite them
word by word, the pointer compared with the end of the range before each store. `none`
when the loop has not ended within its fuel.
-/

namespace Maskset.Logic.Words
set_option autoImplicit false

open Nor

/-- The address is one of the `n` from `a` on. -/
def Within (a : Addr) (n : Nat) (b : Addr) : Prop := (b - a).toNat < n

instance (a : Addr) (n : Nat) (b : Addr) : Decidable (Within a n b) := inferInstanceAs (Decidable (_ < _))

/-- The `n` bytes from `a` on become `f 0`, `f 1` and so on. -/
def assign (a : Addr) (n : Nat) (f : Nat → Byte) (mem : Memory) : Memory := fun b =>
  if Within a n b then f (b - a).toNat else mem b

/-- `*a = v`. -/
def setWord (mem : Memory) (a : Addr) (v : BitVec 32) : Memory := assign a 4 (byteOf v) mem

section Assign

variable {a b : Addr} {n m : Nat} {f g : Nat → Byte} {mem : Memory}

theorem assign_within (within : Within a n b) : assign a n f mem b = f (b - a).toNat := if_pos within

theorem assign_outside (outside : ¬ Within a n b) : assign a n f mem b = mem b := if_neg outside

theorem assign_zero (a : Addr) (f : Nat → Byte) (mem : Memory) : assign a 0 f mem = mem :=
  funext fun _ => if_neg (Nat.not_lt_zero _)

theorem assign_congr (same : ∀ i < n, f i = g i) : assign a n f mem = assign a n g mem :=
  funext fun _ => if_ctx_congr Iff.rfl (same _) fun _ => rfl

/-- A range and the one behind it. -/
theorem within_add_iff (fits : n + m ≤ 2 ^ 32) :
    Within a (n + m) b ↔ Within a n b ∨ Within (a + BitVec.ofNat 32 n) m b := by
  simp only [Within]
  bv_omega

theorem not_within_behind (fits : n + m ≤ 2 ^ 32) (within : Within a n b) : ¬ Within (a + BitVec.ofNat 32 n) m b := by
  simp only [Within] at within ⊢
  bv_omega

theorem offset_behind (small : n < 2 ^ 32) (outside : ¬ Within a n b) :
    (b - (a + BitVec.ofNat 32 n)).toNat = (b - a).toNat - n := by
  simp only [Within] at outside
  bv_omega

theorem within_offset {i : Nat} (inside : i < n) (fits : n ≤ 2 ^ 32) : Within a n (a + BitVec.ofNat 32 i) := by
  rw [Within, toNat_offset a (by omega)]
  exact inside

/-- **Two adjacent ranges are one.** -/
theorem assign_assign (mem : Memory) (small : n < 2 ^ 32) (fits : n + m ≤ 2 ^ 32) :
    assign (a + BitVec.ofNat 32 n) m g (assign a n f mem) =
      assign a (n + m) (fun i => if i < n then f i else g (i - n)) mem := by
  funext b
  by_cases front : Within a n b
  · rw [assign_outside (not_within_behind fits front), assign_within front,
      assign_within ((within_add_iff fits).2 (.inl front))]
    exact (if_pos front).symm
  · by_cases behind : Within (a + BitVec.ofNat 32 n) m b
    · rw [assign_within behind, assign_within ((within_add_iff fits).2 (.inr behind)), offset_behind small front]
      exact (if_neg front).symm
    · rw [assign_outside behind, assign_outside front, assign_outside]
      rintro within
      exact ((within_add_iff fits).1 within).elim front behind

end Assign

/-! ## The loops -/

/-- `for (; dst < edge;) *(dst++) = v;` -/
def fillWords (edge : Addr) (v : BitVec 32) : Nat → Addr → Memory → Option Memory
  | 0, _, _ => none
  | fuel + 1, dst, mem => if dst < edge then fillWords edge v fuel (dst + 4) (setWord mem dst v) else some mem

/-- `for (; dst < edge;) *(dst++) = *(src++);` -/
def copyWords (edge : Addr) : Nat → Addr → Addr → Memory → Option Memory
  | 0, _, _, _ => none
  | fuel + 1, dst, src, mem =>
    if dst < edge then copyWords edge fuel (dst + 4) (src + 4) (setWord mem dst (wordAt mem src)) else some mem

/-- The iterations from `dst` on, with a last word that may reach over the edge. -/
def wordsTo (edge dst : Addr) : Nat := (edge.toNat - dst.toNat + 3) / 4

section Loops

variable {edge dst src : Addr} {v : BitVec 32} {fuel : Nat} {mem : Memory}

theorem wordsTo_succ (noWrap : edge.toNat + 3 < 2 ^ 32) (below : dst < edge) :
    wordsTo edge dst = wordsTo edge (dst + 4) + 1 := by
  simp only [wordsTo]
  bv_omega

theorem wordsTo_zero (reached : ¬ dst < edge) : wordsTo edge dst = 0 := by
  simp only [wordsTo]
  bv_omega

theorem wordsTo_fits (noWrap : edge.toNat + 3 < 2 ^ 32) (dst : Addr) : 4 * wordsTo edge dst ≤ 2 ^ 32 := by
  simp only [wordsTo]
  omega

/-- A word and the ones behind it. -/
theorem assign_words (dst : Addr) (f g : Nat → Byte) (mem : Memory) {k : Nat} (fits : 4 * (k + 1) ≤ 2 ^ 32) :
    assign (dst + 4) (4 * k) (fun i => g (i + 4)) (assign dst 4 f mem) =
      assign dst (4 * (k + 1)) (fun i => if i < 4 then f i else g i) mem := by
  have fits4 : 4 + 4 * k ≤ 2 ^ 32 := by omega
  refine (assign_assign mem (by decide) fits4).trans ?_
  rw [Nat.mul_succ, Nat.add_comm 4]
  refine assign_congr fun i _ => ?_
  split
  · rfl
  · rename_i behind
    rw [Nat.sub_add_cancel (Nat.le_of_not_lt behind)]

/-- **Filling a range.** -/
theorem fillWords_eq (noWrap : edge.toNat + 3 < 2 ^ 32) (v : BitVec 32) (mem : Memory)
    (enough : wordsTo edge dst < fuel) :
    fillWords edge v fuel dst mem = some (assign dst (4 * wordsTo edge dst) (fun i => byteOf v (i % 4)) mem) := by
  induction fuel generalizing dst mem with
  | zero => cases enough
  | succ fuel ih =>
    rw [fillWords]
    split
    · rename_i below
      have words := wordsTo_succ noWrap below
      have fits := wordsTo_fits noWrap dst
      have joined := assign_words dst (byteOf v) (fun i => byteOf v (i % 4)) mem (words ▸ fits)
      rw [ih _ (by omega), setWord, words]
      simp only [Nat.add_mod_right] at joined
      rw [joined]
      refine congrArg some (assign_congr fun i _ => ?_)
      split
      · rename_i inWord
        rw [Nat.mod_eq_of_lt inWord]
      · rfl
    · rename_i reached
      rw [wordsTo_zero reached, Nat.mul_zero, assign_zero]

/-- A word that is copied, byte by byte. -/
theorem setWord_wordAt (mem : Memory) (dst src : Addr) :
    setWord mem dst (wordAt mem src) = assign dst 4 (fun i => mem (src + BitVec.ofNat 32 i)) mem :=
  assign_congr fun _ lane => byteOf_wordAt lane

/-- **Copying a range** that the copy does not overlap. -/
theorem copyWords_eq (noWrap : edge.toNat + 3 < 2 ^ 32) (mem : Memory) (enough : wordsTo edge dst < fuel)
    (disjoint : ∀ b, Within src (4 * wordsTo edge dst) b → ¬ Within dst (4 * wordsTo edge dst) b) :
    copyWords edge fuel dst src mem =
      some (assign dst (4 * wordsTo edge dst) (fun i => mem (src + BitVec.ofNat 32 i)) mem) := by
  induction fuel generalizing dst src mem with
  | zero => cases enough
  | succ fuel ih =>
    rw [copyWords]
    split
    · rename_i below
      have words := wordsTo_succ noWrap below
      have fits := wordsTo_fits noWrap dst
      rw [words] at fits disjoint ⊢
      have split4 {a b : Addr} : Within a (4 * (wordsTo edge (dst + 4) + 1)) b ↔
          Within a 4 b ∨ Within (a + 4) (4 * wordsTo edge (dst + 4)) b := by
        rw [Nat.mul_succ, Nat.add_comm]
        exact within_add_iff (by omega)
      have rest : ∀ b, Within (src + 4) (4 * wordsTo edge (dst + 4)) b →
          ¬ Within (dst + 4) (4 * wordsTo edge (dst + 4)) b :=
        fun b source target => disjoint b (split4.2 (.inr source)) (split4.2 (.inr target))
      rw [setWord_wordAt, ih _ (by omega) rest]
      -- the rest of the source is as it was before the first word
      have kept : ∀ i < 4 * wordsTo edge (dst + 4),
          assign dst 4 (fun i => mem (src + BitVec.ofNat 32 i)) mem (src + 4 + BitVec.ofNat 32 i) =
            mem (src + BitVec.ofNat 32 (i + 4)) := by
        intro i inside
        have source := within_offset (a := src + 4) inside (by omega)
        rw [assign_outside fun target => disjoint _ (split4.2 (.inr source)) (split4.2 (.inl target)),
          BitVec.add_assoc, BitVec.ofNat_add, BitVec.add_comm 4]
        rfl
      rw [assign_congr kept, assign_words dst _ (fun i => mem (src + BitVec.ofNat 32 i)) mem fits]
      exact congrArg some (assign_congr fun i _ => ite_self _)
    · rename_i reached
      rw [wordsTo_zero reached, Nat.mul_zero, assign_zero]

end Loops

end Maskset.Logic.Words
