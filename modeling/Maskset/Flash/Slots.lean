import Maskset.Flash.Sectors

/-!
# From a slot to its area

MCUboot names an area by an image and a slot, turns them into an id and opens the id. The
id of a slot that does not exist is 255 or -1; `flash_area_open` takes eight bits of it
and, as the comment in the source says, fails.
-/

namespace Maskset.Flash
set_option autoImplicit false

def flashAreaIdFromImageSlot (slot : Int) (d : Device) : BitVec 32 × Device := flashAreaIdFromMultiImageSlot 0 slot d

/-- The code, and what `area_outp` points to afterwards. -/
def flashAreaOpen (id : BitVec 8) : Int × Option FlashArea :=
  let area := prvLookupFlashArea id
  (if area.isSome then 0 else -1, area)

/-- The area of a slot. -/
def slotArea (imageIndex slot : Int) : Option FlashArea :=
  if imageIndex = 0 ∧ slot = 0 then some primaryImg0
  else if imageIndex = 0 ∧ slot = 1 then some secondaryImg0
  else none

section Open

variable {id : BitVec 8} {fa : FlashArea}

/-- Different areas have different ids. -/
theorem area_of_faId {other : FlashArea} (area : fa ∈ sFlashAreas) (area' : other ∈ sFlashAreas)
    (same : fa.faId = other.faId) : fa = other := by
  have all : ∀ fa ∈ sFlashAreas, ∀ other ∈ sFlashAreas, fa.faId = other.faId → fa = other := by decide
  exact all fa area other area' same

theorem prvLookup_iff : prvLookupFlashArea id = some fa ↔ fa ∈ sFlashAreas ∧ fa.faId = id := by
  rw [prvLookupFlashArea]
  constructor
  · intro found
    have same : id = fa.faId := by simpa using List.find?_some found
    exact ⟨List.mem_of_find?_eq_some found, same.symm⟩
  · rintro ⟨area, rfl⟩
    obtain ⟨other, found⟩ : ∃ other, sFlashAreas.find? (fun area => fa.faId = area.faId) = some other := by
      rw [← Option.isSome_iff_exists, List.find?_isSome]
      exact ⟨fa, area, decide_eq_true rfl⟩
    have same : fa.faId = other.faId := by simpa using List.find?_some found
    rw [found, area_of_faId area (List.mem_of_find?_eq_some found) same]

/-- **An id is opened exactly when an area has it**, and then this area is. -/
theorem flashAreaOpen_iff : flashAreaOpen id = (0, some fa) ↔ fa ∈ sFlashAreas ∧ fa.faId = id := by
  rw [flashAreaOpen, ← prvLookup_iff]
  constructor
  · exact fun opened => (Prod.mk.inj opened).2
  · intro found
    rw [found]
    rfl

/-- No area has the id of a slot that does not exist, nor the last eight bits of -1. -/
theorem prvLookup_missing :
    prvLookupFlashArea (((255 : BitVec 8).setWidth 32).setWidth 8) = none ∧
      prvLookupFlashArea ((-1 : BitVec 32).setWidth 8) = none := by decide

end Open

/-- The area that the id of a slot names. -/
theorem slot_lookup (imageIndex slot : Int) (d : Device) :
    prvLookupFlashArea ((flashAreaIdFromMultiImageSlot imageIndex slot d).1.setWidth 8) = slotArea imageIndex slot := by
  obtain ⟨missing, failed⟩ := prvLookup_missing
  rw [flashAreaIdFromMultiImageSlot, slotArea, flashAreaImagePrimary, flashAreaImageSecondary]
  by_cases first : slot = 0
  · subst first
    by_cases image : imageIndex = 0
    · subst image
      rfl
    · simp only [image, if_true, if_false, false_and, missing]
  by_cases second : slot = 1
  · subst second
    by_cases image : imageIndex = 0
    · subst image
      rfl
    · simp only [image, first, if_true, if_false, false_and, missing]
  · simp only [first, second, if_false, and_false, failed]

theorem slot_device (imageIndex slot : Int) (d : Device) :
    (flashAreaIdFromMultiImageSlot imageIndex slot d).2 =
      if slot = 0 ∨ slot = 1 then d else d.logErr "Unexpected Request: image_index=%d, slot=%d"
        [.num (BitVec.ofInt 32 imageIndex), .num (BitVec.ofInt 32 slot)] := by
  rw [flashAreaIdFromMultiImageSlot]
  by_cases first : slot = 0
  · rw [if_pos first, if_pos (.inl first)]
  by_cases second : slot = 1
  · rw [if_neg first, if_pos second, if_pos (.inr second)]
  · rw [if_neg first, if_neg second, if_neg (not_or.2 ⟨first, second⟩)]

theorem slotArea_cases {imageIndex slot : Int} {fa : FlashArea} (opened : slotArea imageIndex slot = some fa) :
    imageIndex = 0 ∧ (slot = 0 ∧ fa = primaryImg0 ∨ slot = 1 ∧ fa = secondaryImg0) := by
  rw [slotArea] at opened
  split at opened
  · rename_i first
    exact ⟨first.1, .inl ⟨first.2, (Option.some.inj opened).symm⟩⟩
  split at opened
  · rename_i second
    exact ⟨second.1, .inr ⟨second.2, (Option.some.inj opened).symm⟩⟩
  · cases opened

end Maskset.Flash
