import Maskset.Logic.Words

/-!
# The memory at the start of `main`

`prv_cinit` of `startup.c` over the symbols of the linker scripts: `.data` is copied from its
initializers in flash, `.bss` and the lower end of the stack are cleared. `reset_restores`
says that every reset starts the program on the same static data.
-/

namespace Maskset.Boot
set_option autoImplicit false

open Maskset.Logic Maskset.Logic.Nor Maskset.Logic.Words

/-- The RAM region and the size of the stack section. -/
def ramOrigin : Nat := 0x20000000
def ramLength : Nat := 0x6000
def stackSize : Nat := 0x2000

/-- The bytes of the stack that are scrubbed. -/
def scrubSize : Nat := 128

structure Symbols where
  sidata : Addr
  sdata : Addr
  edata : Addr
  sbss : Addr
  ebss : Addr
  sstack : Addr

/-- Symbols as the linker scripts lay them out: the initializers in flash, then in RAM the stack,
`.data` and `.bss`. -/
structure Layout extends Symbols where
  image : sidata.toNat + (edata.toNat - sdata.toNat) ≤ ramOrigin
  stackInRam : ramOrigin ≤ sstack.toNat
  stack : sstack.toNat + stackSize ≤ sdata.toNat
  data : sdata.toNat ≤ edata.toNat
  dataAligned : 4 ∣ sdata.toNat ∧ 4 ∣ edata.toNat
  behindData : edata.toNat ≤ sbss.toNat
  bss : sbss.toNat ≤ ebss.toNat
  bssAligned : 4 ∣ sbss.toNat ∧ 4 ∣ ebss.toNat
  bssInRam : ebss.toNat ≤ ramOrigin + ramLength

def prvCinit (fuel : Nat) (l : Symbols) (mem : Memory) : Option Memory := do
  let mem ← copyWords l.edata fuel l.sdata l.sidata mem
  let mem ← fillWords l.ebss 0 fuel l.sbss mem
  fillWords (l.sstack + BitVec.ofNat 32 scrubSize) 0 fuel l.sstack mem

namespace Layout

variable (l : Layout) (mem : Memory)

def dataSize : Nat := l.edata.toNat - l.sdata.toNat
def bssSize : Nat := l.ebss.toNat - l.sbss.toNat

/-- The address is of `.data`. -/
def Data (b : Addr) : Prop := Within l.sdata l.dataSize b

/-- The address is of `.bss` or scrubbed. -/
def Cleared (b : Addr) : Prop := Within l.sbss l.bssSize b ∨ Within l.sstack scrubSize b

instance (b : Addr) : Decidable (l.Data b) := inferInstanceAs (Decidable (Within _ _ _))
instance (b : Addr) : Decidable (l.Cleared b) := inferInstanceAs (Decidable (_ ∨ _))

/-- The memory that `main` finds. -/
def initialized : Memory := fun b =>
  if l.Data b then mem (l.sidata + (b - l.sdata)) else if l.Cleared b then 0 else mem b

/-- The sections one behind the other, as numbers. -/
theorem order : l.sidata.toNat + l.dataSize ≤ 0x20000000 ∧ 0x20000000 ≤ l.sstack.toNat ∧
    l.sstack.toNat + 0x2000 ≤ l.sdata.toNat ∧ l.sdata.toNat + l.dataSize = l.edata.toNat ∧
    l.edata.toNat ≤ l.sbss.toNat ∧ l.sbss.toNat + l.bssSize = l.ebss.toNat ∧ l.ebss.toNat ≤ 0x20006000 :=
  ⟨l.image, l.stackInRam, l.stack, Nat.add_sub_cancel' l.data, l.behindData, Nat.add_sub_cancel' l.bss, l.bssInRam⟩

theorem data_words : 4 * wordsTo l.edata l.sdata = l.dataSize := by
  have aligned := l.dataAligned
  simp only [wordsTo, dataSize]
  omega

theorem bss_words : 4 * wordsTo l.ebss l.sbss = l.bssSize := by
  have aligned := l.bssAligned
  simp only [wordsTo, bssSize]
  omega

/-- The end of the scrubbed bytes. -/
theorem scrubEnd : (l.sstack + BitVec.ofNat 32 scrubSize).toNat = l.sstack.toNat + scrubSize := by
  have order := l.order
  simp only [scrubSize]
  bv_omega

theorem scrub_words : 4 * wordsTo (l.sstack + BitVec.ofNat 32 scrubSize) l.sstack = scrubSize := by
  rw [wordsTo, scrubEnd, Nat.add_sub_cancel_left]
  rfl

/-- The initializers are not of `.data`. -/
theorem image_apart {b : Addr} (image : Within l.sidata l.dataSize b) : ¬ l.Data b := by
  have order := l.order
  simp only [Data, Within] at *
  bv_omega

theorem data_apart {b : Addr} (data : l.Data b) : ¬ l.Cleared b := by
  have order := l.order
  simp only [Data, Cleared, Within, scrubSize] at *
  bv_omega

/-- Nothing that is initialized is an initializer. -/
theorem image_kept {i : Nat} (inside : i < l.dataSize) :
    l.initialized mem (l.sidata + BitVec.ofNat 32 i) = mem (l.sidata + BitVec.ofNat 32 i) := by
  have order := l.order
  have image : Within l.sidata l.dataSize (l.sidata + BitVec.ofNat 32 i) := within_offset inside (by omega)
  have uncleared : ¬ l.Cleared (l.sidata + BitVec.ofNat 32 i) := by
    simp only [Cleared, Within, scrubSize]
    bv_omega
  rw [initialized, if_neg (l.image_apart image), if_neg uncleared]

end Layout

section Cinit

variable {edge dst : Addr} {fuel : Nat}

theorem clearWords_eq (noWrap : edge.toNat + 3 < 2 ^ 32) (mem : Memory) (enough : wordsTo edge dst < fuel) :
    fillWords edge 0 fuel dst mem = some (assign dst (4 * wordsTo edge dst) (fun _ => 0) mem) := by
  rw [fillWords_eq noWrap 0 mem enough]
  exact congrArg some (assign_congr fun _ _ => BitVec.extractLsb'_zero)

variable (l : Layout) (mem : Memory)

theorem data_copied (enough : ramLength / 4 < fuel) :
    copyWords l.edata fuel l.sdata l.sidata mem =
      some (assign l.sdata l.dataSize (fun i => mem (l.sidata + BitVec.ofNat 32 i)) mem) := by
  have order := l.order
  have words := l.data_words
  have few : wordsTo l.edata l.sdata < fuel := by
    simp only [ramLength] at enough
    omega
  have disjoint : ∀ b, Within l.sidata (4 * wordsTo l.edata l.sdata) b →
      ¬ Within l.sdata (4 * wordsTo l.edata l.sdata) b := by
    rw [words]
    exact fun b => l.image_apart
  have copied := copyWords_eq (by omega) mem few disjoint
  rwa [words] at copied

theorem bss_cleared (enough : ramLength / 4 < fuel) :
    fillWords l.ebss 0 fuel l.sbss mem = some (assign l.sbss l.bssSize (fun _ => 0) mem) := by
  have order := l.order
  have words := l.bss_words
  have few : wordsTo l.ebss l.sbss < fuel := by
    simp only [ramLength] at enough
    omega
  have cleared := clearWords_eq (by omega) mem few
  rwa [words] at cleared

theorem stack_scrubbed (enough : ramLength / 4 < fuel) :
    fillWords (l.sstack + BitVec.ofNat 32 scrubSize) 0 fuel l.sstack mem =
      some (assign l.sstack scrubSize (fun _ => 0) mem) := by
  have order := l.order
  have last := l.scrubEnd
  have words := l.scrub_words
  have noWrap : (l.sstack + BitVec.ofNat 32 scrubSize).toNat + 3 < 2 ^ 32 := by
    rw [last, scrubSize]
    omega
  have few : wordsTo (l.sstack + BitVec.ofNat 32 scrubSize) l.sstack < fuel := by
    simp only [scrubSize, ramLength] at *
    omega
  have cleared := clearWords_eq noWrap mem few
  rwa [words] at cleared

/-- **The loops end** and leave the initialized memory. -/
theorem prvCinit_eq (enough : ramLength / 4 < fuel) : prvCinit fuel l.toSymbols mem = some (l.initialized mem) := by
  rw [prvCinit, data_copied l mem enough]
  change (fillWords _ _ _ _ _).bind _ = _
  rw [bss_cleared l _ enough, Option.bind_some, stack_scrubbed l _ enough]
  refine congrArg some (funext fun b => ?_)
  unfold Layout.initialized
  by_cases data : l.Data b
  · have uncleared := l.data_apart data
    rw [if_pos data, assign_outside fun scrub => uncleared (.inr scrub),
      assign_outside fun bss => uncleared (.inl bss), assign_within data, BitVec.ofNat_toNat, BitVec.setWidth_eq]
  · rw [if_neg data]
    by_cases scrub : Within l.sstack scrubSize b
    · rw [assign_within scrub, if_pos (.inr scrub)]
    · rw [assign_outside scrub]
      by_cases bss : Within l.sbss l.bssSize b
      · rw [assign_within bss, if_pos (.inl bss)]
      · rw [assign_outside bss, assign_outside data, if_neg fun cleared => cleared.elim bss scrub]

end Cinit

/-- **Every reset starts the program on the same static data**, whatever a program has made of the
memory before, as long as the initializers are still in flash: `prv_cinit` ends, `.data` holds its
initializers, `.bss` and the lower end of the stack are zero, and no other byte changes. -/
theorem reset_restores (l : Layout) (mem mem' : Memory) {fuel : Nat} (enough : ramLength / 4 < fuel)
    (flash : ∀ i < l.dataSize, mem' (l.sidata + BitVec.ofNat 32 i) = mem (l.sidata + BitVec.ofNat 32 i)) :
    ∃ t t', prvCinit fuel l.toSymbols mem = some t ∧ prvCinit fuel l.toSymbols mem' = some t' ∧
      (∀ b, l.Data b ∨ l.Cleared b → t' b = t b) ∧
      (∀ i < l.dataSize, t (l.sdata + BitVec.ofNat 32 i) = mem (l.sidata + BitVec.ofNat 32 i) ∧
        t (l.sidata + BitVec.ofNat 32 i) = mem (l.sidata + BitVec.ofNat 32 i)) ∧
      (∀ b, l.Cleared b → t b = 0) ∧ ∀ b, ¬ l.Data b → ¬ l.Cleared b → t b = mem b ∧ t' b = mem' b := by
  refine ⟨_, _, prvCinit_eq l mem enough, prvCinit_eq l mem' enough, ?_, ?_, ?_, ?_⟩
  · intro b static
    unfold Layout.initialized
    by_cases data : l.Data b
    · have same := flash _ data
      rw [BitVec.ofNat_toNat, BitVec.setWidth_eq] at same
      rw [if_pos data, if_pos data, same]
    · have cleared := static.resolve_left data
      rw [if_neg data, if_neg data, if_pos cleared, if_pos cleared]
  · intro i inside
    refine ⟨?_, l.image_kept mem inside⟩
    have order := l.order
    have data : l.Data (l.sdata + BitVec.ofNat 32 i) := within_offset inside (by omega)
    rw [Layout.initialized, if_pos data, BitVec.add_comm l.sdata, BitVec.add_sub_cancel]
  · intro b cleared
    rw [Layout.initialized, if_neg fun data => l.data_apart data cleared, if_pos cleared]
  · intro b other uncleared
    constructor
    · rw [Layout.initialized, if_neg other, if_neg uncleared]
    · rw [Layout.initialized, if_neg other, if_neg uncleared]

/-- Sixteen bytes of `.data` behind the stack and some of `.bss`. -/
def small : Layout where
  sidata := 0x7000
  sdata := 0x20002000
  edata := 0x20002010
  sbss := 0x20002010
  ebss := 0x20002810
  sstack := 0x20000000
  image := by decide
  stackInRam := by decide
  stack := by decide
  data := by decide
  dataAligned := by decide
  behindData := by decide
  bss := by decide
  bssAligned := by decide
  bssInRam := by decide

/-- A second reset, after a program that has filled the RAM. -/
theorem reset_restores_filled :
    ∃ t t', prvCinit 0x1801 small.toSymbols (fun b => b.setWidth 8) = some t ∧
      prvCinit 0x1801 small.toSymbols (fun b => if b < 0x20000000 then b.setWidth 8 else 0xa5) = some t' ∧
        t' 0x20002003 = t 0x20002003 ∧ t 0x20002003 = 3 ∧ t 0x20002805 = 0 := by
  obtain ⟨t, t', run, run', same, data, cleared, -⟩ := reset_restores small (fun b => b.setWidth 8)
    (fun b => if b < 0x20000000 then b.setWidth 8 else 0xa5) (show ramLength / 4 < 0x1801 by decide) (by
      intro i inside
      exact if_pos (by simp only [small, Layout.dataSize] at *; bv_omega))
  exact ⟨t, t', run, run', same _ (.inl (by decide)), (data 3 (by decide)).1, cleared _ (.inl (by decide))⟩

end Maskset.Boot
