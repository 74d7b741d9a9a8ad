import Mathlib.Data.Vector.Basic

/-!
# Counters, arrays and strings of C

A `size_t` of 32 bits that counts up and down, an array whose accesses are checked
(`none` outside the bounds), and the string a pointer into an array points to.
-/

namespace Maskset.Logic
set_option autoImplicit false

/-- `n + 1` in a `size_t`. -/
def sizeSucc (n : Nat) : Nat := if n = 2 ^ 32 - 1 then 0 else n + 1

/-- `n - 1` in a `size_t`. -/
def sizePred (n : Nat) : Nat := if n = 0 then 2 ^ 32 - 1 else n - 1

theorem sizeSucc_eq {n : Nat} (small : n < 2 ^ 32 - 1) : sizeSucc n = n + 1 := if_neg (Nat.ne_of_lt small)

theorem sizePred_eq {n : Nat} (pos : n ≠ 0) : sizePred n = n - 1 := if_neg pos

section Arrays

variable {α : Type} {size i : Nat} {v v' : Vector α size} {a : α}

/-- `v[i]`. -/
def load (v : Vector α size) (i : Nat) : Option α := v.toList[i]?

/-- `v[i] = a`. -/
def store (v : Vector α size) (i : Nat) (a : α) : Option (Vector α size) :=
  if h : i < size then some (v.set i a) else none

theorem store_eq (inRange : i < size) : store v i a = some (v.set i a) := dif_pos inRange

theorem load_store (stored : store v i a = some v') : load v' i = some a := by
  unfold store at stored
  split at stored
  · rename_i inRange
    obtain rfl := Option.some.inj stored
    simp [load, inRange]
  · cases stored

/-- A store, by what stands before and behind the cell. -/
theorem store_content {before behind : List α} {b : α} (content : v.toList = before ++ b :: behind) :
    ∃ v', store v before.length a = some v' ∧ v'.toList = before ++ a :: behind := by
  have inRange : before.length < size := by
    have length := congrArg List.length content
    simp only [Vector.length_toList, List.length_append, List.length_cons] at length
    omega
  refine ⟨v.set before.length a, store_eq inRange, ?_⟩
  rw [Vector.toList_set, content, List.set_append_right _ _ (Nat.le_refl _), Nat.sub_self, List.set_cons_zero]

theorem load_content {before behind : List α} {b : α} (content : v.toList = before ++ b :: behind) :
    load v before.length = some b := by
  rw [load, content, List.getElem?_append_right (Nat.le_refl _), Nat.sub_self, List.getElem?_cons_zero]

/-- Stores one after the other, from the index on. -/
def storeAll : Vector α size → Nat → List α → Option (Vector α size)
  | v, _, [] => some v
  | v, i, a :: as => do
    let v ← store v i a
    storeAll v (i + 1) as

theorem storeAll_content {before old behind as : List α} (content : v.toList = before ++ old ++ behind)
    (length : old.length = as.length) :
    ∃ v', storeAll v before.length as = some v' ∧ v'.toList = before ++ as ++ behind := by
  induction as generalizing v before old with
  | nil =>
    obtain rfl := List.length_eq_zero_iff.1 length
    exact ⟨v, rfl, content⟩
  | cons a as ih =>
    obtain ⟨b, old, rfl⟩ := List.exists_cons_of_length_eq_add_one length
    rw [List.append_assoc, List.cons_append] at content
    obtain ⟨v1, first, content1⟩ := store_content (a := a) content
    rw [List.append_cons, ← List.append_assoc] at content1
    obtain ⟨v2, rest, content2⟩ := ih content1 (by simpa using length)
    rw [List.length_append, List.length_singleton] at rest
    refine ⟨v2, ?_, ?_⟩
    · rw [storeAll, first]
      exact rest
    · rw [content2, List.append_assoc _ [a], List.singleton_append]

end Arrays

/-! ## Strings -/

/-- The C string that starts at `p`: up to the first NUL, which must exist. -/
def cString (mem : List Char) (p : Nat) : Option (List Char) :=
  if '\x00' ∈ mem.drop p then some ((mem.drop p).takeWhile (· ≠ '\x00')) else none

/-- The characters before the first NUL. -/
def untilNul (str : List Char) : List Char := str.takeWhile (· ≠ '\x00')

section Strings

variable {mem str behind : List Char} {p : Nat}

theorem untilNul_eq (noNul : '\x00' ∉ str) : untilNul str = str := by
  have before : ∀ c ∈ str, decide (c ≠ '\x00') = true :=
    fun c within => decide_eq_true fun (nul : c = '\x00') => noNul (nul ▸ within)
  rw [untilNul, ← List.append_nil str, List.takeWhile_append_of_pos before]
  rfl

theorem untilNul_append : untilNul (str ++ '\x00' :: behind) = untilNul str := by
  unfold untilNul
  induction str with
  | nil => rfl
  | cons c str ih => rw [List.cons_append, List.takeWhile_cons, List.takeWhile_cons, ih]

/-- A string ends at the first NUL of what stands before a NUL. -/
theorem cString_terminated (split : mem.drop p = str ++ '\x00' :: behind) : cString mem p = some (untilNul str) := by
  rw [← untilNul_append, ← split]
  exact if_pos (by rw [split]; simp)

theorem cString_eq_some_iff :
    cString mem p = some str ↔ '\x00' ∉ str ∧ ∃ behind, mem.drop p = str ++ '\x00' :: behind := by
  have terminated {str behind : List Char} (noNul : '\x00' ∉ str) :
      (str ++ '\x00' :: behind).takeWhile (· ≠ '\x00') = str :=
    untilNul_append.trans (untilNul_eq noNul)
  unfold cString
  constructor
  · intro there
    split at there
    · rename_i nul
      obtain ⟨before, behind, split, noNul⟩ := List.eq_append_cons_of_mem nul
      rw [split, terminated noNul] at there
      obtain rfl := Option.some.inj there
      exact ⟨noNul, behind, split⟩
    · cases there
  · rintro ⟨noNul, behind, split⟩
    rw [← cString, cString_terminated split, untilNul_eq noNul]

/-- What stands behind the terminator does not matter. -/
theorem cString_append (there : cString mem p = some str) (behind : List Char) :
    cString (mem ++ behind) p = some str := by
  obtain ⟨noNul, rest, split⟩ := cString_eq_some_iff.1 there
  have inside : p ≤ mem.length := by
    have length := congrArg List.length split
    simp only [List.length_drop, List.length_append, List.length_cons] at length
    omega
  refine cString_eq_some_iff.2 ⟨noNul, rest ++ behind, ?_⟩
  rw [List.drop_append_of_le_length inside, split, List.append_assoc, List.cons_append]

end Strings

end Maskset.Logic
