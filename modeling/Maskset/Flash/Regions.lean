import Maskset.Flash.RoundTrip
import Maskset.Logic.Service

/-!
# Areas as regions

What the flash areas are for: each is a region of bytes of its own, programmed by clearing
bits and erased by sectors. On the calls that stay in range `mcuboot_port.c` over the one
flash refines the product of these regions, so what happens in an area depends on the
calls on this area only.
-/

namespace Maskset.Flash
set_option autoImplicit false

open Maskset.Logic Maskset.Logic.Nor

/-- A call on an area. -/
inductive Call where
  | read (off len : BitVec 32)
  | write (off : BitVec 32) (src : Nat → Byte) (len : BitVec 32)
  | erase (off len : BitVec 32)

structure Answer where
  rc : Int
  dst : List Byte := []
deriving DecidableEq

abbrev Area := { fa : FlashArea // fa ∈ sFlashAreas }

/-- The device after a call and its answer, unless it is trapped. -/
def answered (d : Device) (dst : List Byte) : Outcome → Option (Device × Answer)
  | .returned rc => some (d, ⟨rc, dst⟩)
  | .trapped => none

def perform (fa : FlashArea) (d : Device) : Call → Option (Device × Answer)
  | .read off len =>
    let (outcome, dst, d) := flashAreaRead fa off len d
    answered d dst outcome
  | .write off src len =>
    let (outcome, d) := flashAreaWrite fa off src len d
    answered d [] outcome
  | .erase off len =>
    let (outcome, d) := flashAreaErase fa off len d
    answered d [] outcome

/-- Calls on all areas. -/
def flashCalls : Service Device (Area × Call) (Area × Answer) := fun d q =>
  (perform q.1 d q.2).map fun answer => (answer.1, q.1, answer.2)

/-! ## Regions -/

abbrev Region (size : Nat) := Fin size → Byte

namespace Region

variable {size : Nat}

def get (r : Region size) (k : Nat) : Byte := if inRange : k < size then r ⟨k, inRange⟩ else 0

/-- Bits of the range are cleared. -/
def program (r : Region size) (off len : Nat) (src : Nat → Byte) : Region size := fun k =>
  if off ≤ k ∧ k < off + len then r k &&& src (k - off) else r k

def erase (r : Region size) (off len : Nat) : Region size := fun k => if off ≤ k ∧ k < off + len then 0xff else r k

/-- A call on a region. A range beyond the end is refused, a write that would have to set a bit
traps, and an erase takes whole sectors. -/
def call : Service (Region size) Call Answer
  | r, .read off len =>
    if off.toNat + len.toNat ≤ size then
      some (r, ⟨0, (List.range len.toNat).map fun i => r.get (off.toNat + i)⟩)
    else some (r, ⟨-1, []⟩)
  | r, .write off src len =>
    if off.toNat + len.toNat ≤ size then
      if ∀ i < len.toNat, src i &&& ~~~r.get (off.toNat + i) = 0 then
        some (r.program off.toNat len.toNat src, ⟨0, []⟩)
      else none
    else some (r, ⟨-1, []⟩)
  | r, .erase off len =>
    if Aligned off len then some (r.erase off.toNat len.toNat, ⟨0, []⟩) else some (r, ⟨-1, []⟩)

end Region

/-- Calls on a region for each area. -/
def regions : Service ((a : Area) → Region a.1.faSize.toNat) (Area × Call) (Area × Answer) :=
  Service.product fun _ => Region.call

/-- What the area holds, by offsets. -/
def contents (d : Device) (a : Area) : Region a.1.faSize.toNat := fun k => d.flash (a.1.faOff + BitVec.ofNat 32 k)

/-- The call stays in the area or is refused: `off + len` does not wrap into the accepted sums, and
an erase that is aligned does not go beyond the end. -/
def InRange (fa : FlashArea) : Call → Prop
  | .read off len => ¬ Wraps fa off len
  | .write off _ len => ¬ Wraps fa off len
  | .erase off len => ¬ Aligned off len ∨ off.toNat + len.toNat ≤ fa.faSize.toNat

instance (fa : FlashArea) : (q : Call) → Decidable (InRange fa q)
  | .read _ _ => inferInstanceAs (Decidable (¬ _))
  | .write _ _ _ => inferInstanceAs (Decidable (¬ _))
  | .erase _ _ => inferInstanceAs (Decidable (_ ∨ _))

section Calls

variable {a : Area} {d d' : Device} {off len : BitVec 32} {src : Nat → Byte} {k : Nat}

theorem perform_read {fa : FlashArea} {outcome : Outcome} {dst : List Byte}
    (call : flashAreaRead fa off len d = (outcome, dst, d')) :
    perform fa d (.read off len) = answered d' dst outcome := by rw [perform, call]

theorem perform_write {fa : FlashArea} {outcome : Outcome} (call : flashAreaWrite fa off src len d = (outcome, d')) :
    perform fa d (.write off src len) = answered d' [] outcome := by rw [perform, call]

theorem perform_erase {fa : FlashArea} {outcome : Outcome} (call : flashAreaErase fa off len d = (outcome, d')) :
    perform fa d (.erase off len) = answered d' [] outcome := by rw [perform, call]

/-- The address of an offset in the area. -/
theorem place (a : Area) (inRange : k < a.1.faSize.toNat) :
    (a.1.faOff + BitVec.ofNat 32 k).toNat = a.1.faOff.toNat + k := by
  have placed := (area_bounds a.2).2
  rw [BitVec.toNat_add, BitVec.toNat_ofNat]
  omega

theorem get_contents (fits : off.toNat + len.toNat ≤ a.1.faSize.toNat) (inRange : k < len.toNat) :
    (contents d a).get (off.toNat + k) = d.flash (a.1.faOff + off + BitVec.ofNat 32 k) := by
  have inside : off.toNat + k < a.1.faSize.toNat := by omega
  have address : a.1.faOff + BitVec.ofNat 32 (off.toNat + k) = a.1.faOff + off + BitVec.ofNat 32 k := by
    rw [BitVec.ofNat_add, BitVec.ofNat_toNat, BitVec.setWidth_eq, BitVec.add_assoc]
  rw [Region.get, dif_pos inside]
  exact congrArg d.flash address

/-- A change inside one area is a change of its region. -/
theorem contents_update {r : Region a.1.faSize.toNat}
    (own : ∀ k : Fin a.1.faSize.toNat, d'.flash (a.1.faOff + BitVec.ofNat 32 k) = r k)
    (frame : ∀ b, ¬ Inside a.1 b → d'.flash b = d.flash b) : contents d' = Function.update (contents d) a r := by
  funext other
  by_cases here : other = a
  · subst here
    rw [Function.update_self]
    exact funext own
  · rw [Function.update_of_ne here]
    funext k
    have inside : Inside other.1 (other.1.faOff + BitVec.ofNat 32 k) := by
      rw [Inside, place other k.2]
      omega
    apply frame
    exact areas_disjoint a.2 other.2 (fun same => here (Subtype.ext same)) inside

theorem contents_same (same : d'.flash = d.flash) : contents d' = Function.update (contents d) a (contents d a) := by
  have unchanged : contents d' = contents d := by
    funext other k
    exact congrFun same _
  rw [Function.update_eq_self, unchanged]

/-- A call that returns on both sides. -/
theorem refines_returned {q : Call} {r : Region a.1.faSize.toNat} {answer : Answer}
    (call : perform a.1 d q = some (d', answer)) (same : contents d' = Function.update (contents d) a r)
    (region : Region.call (contents d a) q = some (r, answer)) :
    (flashCalls d (a, q)).map (Prod.map contents id) = regions (contents d) (a, q) := by
  rw [flashCalls, regions, Service.product]
  dsimp only
  rw [call, region]
  exact congrArg (fun contents => some (contents, a, answer)) same

/-- A call that traps on both sides. -/
theorem refines_trapped {q : Call} (call : perform a.1 d q = none) (region : Region.call (contents d a) q = none) :
    (flashCalls d (a, q)).map (Prod.map contents id) = regions (contents d) (a, q) := by
  rw [flashCalls, regions, Service.product]
  dsimp only
  rw [call, region]
  rfl

/-- **A read** in range is one of the region. -/
theorem read_refines (noWrap : ¬ Wraps a.1 off len) :
    (flashCalls d (a, .read off len)).map (Prod.map contents id) = regions (contents d) (a, .read off len) := by
  have internal := (area_bounds a.2).1
  by_cases beyond : off + len > a.1.faSize
  · have refused := flashAreaRead_refused internal beyond d
    refine refines_returned (perform_read refused) (contents_same rfl) ?_
    exact if_neg (Nat.not_le.2 ((check_iff noWrap).1 beyond))
  · have accepted := flashAreaRead_accepted internal beyond d
    have fits : off.toNat + len.toNat ≤ a.1.faSize.toNat := Nat.le_of_not_lt (mt (check_iff noWrap).2 beyond)
    refine refines_returned (perform_read accepted) (contents_same rfl) ?_
    rw [Region.call, if_pos fits]
    congr 3
    rw [List.map_map]
    apply List.map_congr_left
    intro i inRange
    exact get_contents fits (List.mem_range.1 inRange)

/-- The bytes of an accepted write, by their offsets. -/
theorem written_contents (fits : off.toNat + len.toNat ≤ a.1.faSize.toNat) (k : Fin a.1.faSize.toNat) :
    (written a.1 off src len d).flash (a.1.faOff + BitVec.ofNat 32 k) =
      (contents d a).program off.toNat len.toNat src k := by
  have address := place a k.2
  have start := area_start a.2 off (by omega)
  let w : WriteCall := ⟨off, src, len⟩
  have covers := @covers_iff a.1 w (a.1.faOff + BitVec.ofNat 32 k) a.2 fits
  rw [WriteCall.Writes, address, Nat.add_sub_cancel_left] at covers
  have byte (b : Addr) : (written a.1 off src len d).flash b =
      if (w.range a.1).Covers b then d.flash b &&& src (b - (a.1.faOff + off)).toNat else d.flash b := rfl
  rw [byte, Region.program]
  by_cases here : off.toNat ≤ k ∧ k < off.toNat + len.toNat
  · have index : (a.1.faOff + BitVec.ofNat 32 k - (a.1.faOff + off)).toNat = k - off.toNat := by
      rw [BitVec.toNat_sub, address, start]
      omega
    rw [if_pos here, if_pos (covers.2 ⟨by omega, here⟩)]
    exact congrArg (fun i => contents d a k &&& src i) index
  · rw [if_neg here, if_neg (fun covered => here (covers.1 covered).2)]
    rfl

/-- **A write** in range is one of the region. -/
theorem write_refines (noWrap : ¬ Wraps a.1 off len) :
    (flashCalls d (a, .write off src len)).map (Prod.map contents id) =
      regions (contents d) (a, .write off src len) := by
  have internal := (area_bounds a.2).1
  by_cases beyond : off + len > a.1.faSize
  · have refused := flashAreaWrite_refused internal beyond src d
    refine refines_returned (perform_write refused) (contents_same rfl) ?_
    exact if_neg (Nat.not_le.2 ((check_iff noWrap).1 beyond))
  have accepted := flashAreaWrite_accepted internal beyond src d
  have fits : off.toNat + len.toNat ≤ a.1.faSize.toNat := Nat.le_of_not_lt (mt (check_iff noWrap).2 beyond)
  have clears : (∀ i < len.toNat, src i &&& ~~~(contents d a).get (off.toNat + i) = 0) ↔
      ∀ i < len.toNat, (written a.1 off src len d).flash (a.1.faOff + off + BitVec.ofNat 32 i) = src i := by
    rw [validate_iff]
    apply forall_congr'
    intro i
    apply imp_congr_right
    intro inRange
    rw [get_contents fits inRange]
  have programmed : contents (written a.1 off src len d) =
      Function.update (contents d) a ((contents d a).program off.toNat len.toNat src) := by
    apply contents_update
    · exact written_contents fits
    · exact fun b outside => written_outside a.2 fits outside
  by_cases check : ∀ i < len.toNat, src i &&& ~~~(contents d a).get (off.toNat + i) = 0
  · rw [if_pos (clears.1 check)] at accepted
    refine refines_returned (perform_write accepted) programmed ?_
    rw [Region.call, if_pos fits, if_pos check]
  · rw [if_neg (mt clears.2 check)] at accepted
    refine refines_trapped (perform_write accepted) ?_
    rw [Region.call, if_pos fits, if_neg check]

/-- **An erase** in range is one of the region. -/
theorem erase_refines (inRange : ¬ Aligned off len ∨ off.toNat + len.toNat ≤ a.1.faSize.toNat) :
    (flashCalls d (a, .erase off len)).map (Prod.map contents id) = regions (contents d) (a, .erase off len) := by
  obtain ⟨internal, placed⟩ := area_bounds a.2
  by_cases aligned : Aligned off len
  · have fits := inRange.resolve_left (not_not_intro aligned)
    obtain ⟨call, flash⟩ := flashAreaErase_erases internal aligned.1 aligned.2 (area_aligned a.2)
      (area_start a.2 off (by omega)) (by omega) d
    refine refines_returned (perform_erase call) ?_ (if_pos aligned)
    apply contents_update
    · intro k
      rw [flash, place a k.2, Region.erase]
      apply if_congr _ rfl rfl
      omega
    · intro b outside
      unfold Inside at outside
      rw [flash b, if_neg (by omega)]
  · have some : len.toNat % flashSectorSize ≠ 0 ∨ off.toNat % flashSectorSize ≠ 0 := by
      unfold Aligned at aligned
      omega
    have refused := flashAreaErase_misaligned internal some d
    exact refines_returned (perform_erase refused) (contents_same rfl) (if_neg aligned)

/-- **The areas refine their regions**, call by call. -/
theorem flash_refines : Service.Refines flashCalls regions contents fun q => InRange q.1.1 q.2 := by
  intro d q inRange
  obtain ⟨a, q⟩ := q
  cases q with
  | read off len => exact read_refines inRange
  | write off src len => exact write_refines inRange
  | erase off len => exact erase_refines inRange

end Calls

/-- **Every sequence of calls in range does to the areas what it does to their regions**: with the same
answers, the same contents after it, and trapped exactly where the regions are. -/
theorem flash_serves (qs : List (Area × Call)) (inRange : ∀ q ∈ qs, InRange q.1.1 q.2) (d : Device) :
    (flashCalls.serve d qs).map (Prod.map contents id) = regions.serve (contents d) qs :=
  flash_refines.serve inRange d

def primary : Area := ⟨primaryImg0, by decide⟩
def secondary : Area := ⟨secondaryImg0, by decide⟩

/-- A byte of the primary slot, read back after a refused write to the secondary slot. -/
def primaryByte : List (Area × Call) :=
  [(primary, .write 5 (fun _ => 0x5a) 1), (secondary, .write 0x1FFFF (fun _ => 0) 2), (primary, .read 4 3)]

theorem flash_serves_primaryByte :
    (flashCalls.serve blank primaryByte).map (Prod.map contents id) = regions.serve (contents blank) primaryByte :=
  flash_serves primaryByte (by decide) blank

/-- **What happens in an area depends on its own calls only**: two sequences of calls in range that are
the same on an area and do not trap give the same answers there and leave the same contents. -/
theorem areas_isolated (a : Area) {qs qs' : List (Area × Call)} (inRange : ∀ q ∈ qs, InRange q.1.1 q.2)
    (inRange' : ∀ q ∈ qs', InRange q.1.1 q.2) (same : Service.about a qs = Service.about a qs') {d d' e e' : Device}
    {as as' : List (Area × Answer)} (start : contents d a = contents e a)
    (run : flashCalls.serve d qs = some (d', as)) (run' : flashCalls.serve e qs' = some (e', as')) :
    contents d' a = contents e' a ∧ Service.about a as = Service.about a as' := by
  have region := flash_refines.serve inRange d
  have region' := flash_refines.serve inRange' e
  rw [run] at region
  rw [run'] at region'
  have alone := Service.serve_product region.symm a
  have alone' := Service.serve_product region'.symm a
  rw [same, start] at alone
  exact Prod.mk.inj (Option.some.inj (alone.symm.trans alone'))

/-- Without the calls on the secondary slot the primary slot ends the same. -/
theorem areas_isolated_primaryByte :
    ∃ d' as e' as', flashCalls.serve blank primaryByte = some (d', as) ∧
      flashCalls.serve blank (primaryByte.filter fun q => q.1 = primary) = some (e', as') ∧
      contents d' primary = contents e' primary ∧ Service.about primary as = Service.about primary as' := by
  obtain ⟨d', as, run⟩ : ∃ d' as, flashCalls.serve blank primaryByte = some (d', as) := ⟨_, _, rfl⟩
  obtain ⟨e', as', run'⟩ : ∃ e' as', flashCalls.serve blank (primaryByte.filter fun q => q.1 = primary) =
      some (e', as') := ⟨_, _, rfl⟩
  have same : Service.about primary primaryByte =
      Service.about primary (primaryByte.filter fun q => q.1 = primary) := rfl
  exact ⟨d', as, e', as', run, run', areas_isolated primary (by decide) (by decide) same rfl run run'⟩

end Maskset.Flash
