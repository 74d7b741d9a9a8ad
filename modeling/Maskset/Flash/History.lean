import Maskset.Flash.Regions

/-!
# What can have happened to a byte

The record of the driver accounts for the flash, whatever the arguments of the calls are,
ranges that wrap around included: a byte that changed was programmed or its page was
erased, without an erase of its page a byte only loses bits, and what was erased and not
programmed since reads 0xff.
-/

namespace Maskset.Flash
set_option autoImplicit false

open Maskset.Logic Maskset.Logic.Nor

/-- The addresses are in one page. -/
def SamePage (a b : Addr) : Prop := a.toNat / flashSectorSize = b.toNat / flashSectorSize

/-- The events account for the difference between the devices. -/
structure History (d t : Device) (es : List Event) : Prop where
  trace : t.trace = d.trace ++ es
  clears : ∀ b, (∀ a, .erase a ∈ es → ¬ SamePage a b) → d.flash b &&& t.flash b = t.flash b
  changes : ∀ b, (∀ a, .erase a ∈ es → ¬ SamePage a b) → .program b ∉ es → t.flash b = d.flash b
  erased : ∀ b a before behind, es = before ++ .erase a :: behind → SamePage a b → .program b ∉ behind →
    t.flash b = 0xff
  idle : d.config = nvmcConfigRen → t.config = nvmcConfigRen

namespace History

variable {d t u : Device} {es es' : List Event}

/-- Events without an erase. -/
theorem of_noErase (trace : t.trace = d.trace ++ es) (noErase : ∀ a, .erase a ∉ es)
    (clears : ∀ b, d.flash b &&& t.flash b = t.flash b) (changes : ∀ b, .program b ∉ es → t.flash b = d.flash b)
    (idle : d.config = nvmcConfigRen → t.config = nvmcConfigRen) : History d t es where
  trace
  clears := fun b _ => clears b
  changes := fun b _ => changes b
  erased := by
    rintro b a before behind rfl
    exact absurd (List.mem_append_right _ List.mem_cons_self) (noErase a)
  idle

/-- The flash as it was. -/
theorem quiet (es : List Event) (noErase : ∀ a, .erase a ∉ es) : History d (d.observe es) es :=
  of_noErase rfl noErase (fun _ => BitVec.and_self) (fun _ _ => rfl) id

theorem log (fmt : String) (args : List LogArg) : History d (d.observe [.log fmt args]) [.log fmt args] :=
  quiet _ (by simp)

theorem refl : History d d [] :=
  of_noErase (List.append_nil _).symm (fun _ => List.not_mem_nil) (fun _ => BitVec.and_self) (fun _ _ => rfl) id

/-- A byte without events keeps 0xff or gets it. -/
theorem stays_erased (h : History d t es) {b : Addr} (unprogrammed : .program b ∉ es) (start : d.flash b = 0xff) :
    t.flash b = 0xff := by
  by_cases kept : ∀ a, .erase a ∈ es → ¬ SamePage a b
  · exact (h.changes b kept unprogrammed).trans start
  · push Not at kept
    obtain ⟨a, within, same⟩ := kept
    obtain ⟨before, behind, rfl⟩ := List.append_of_mem within
    exact h.erased b a before behind rfl same fun later =>
      unprogrammed (List.mem_append_right _ (List.mem_cons_of_mem _ later))

/-- **Histories compose.** -/
theorem trans (first : History d t es) (second : History t u es') : History d u (es ++ es') where
  trace := by rw [second.trace, first.trace, List.append_assoc]
  clears := by
    intro b kept
    have before := first.clears b fun a within => kept a (List.mem_append_left _ within)
    have behind := second.clears b fun a within => kept a (List.mem_append_right _ within)
    rw [← behind, ← BitVec.and_assoc, before]
  changes := by
    intro b kept unprogrammed
    have before := first.changes b (fun a within => kept a (List.mem_append_left _ within))
      fun within => unprogrammed (List.mem_append_left _ within)
    have behind := second.changes b (fun a within => kept a (List.mem_append_right _ within))
      fun within => unprogrammed (List.mem_append_right _ within)
    exact behind.trans before
  erased := by
    intro b a before behind split same unprogrammed
    rcases List.append_eq_append_iff.1 split with ⟨mid, rfl, split'⟩ | ⟨mid, rfl, split'⟩
    · exact second.erased b a mid behind split' same unprogrammed
    · cases mid with
      | nil => exact second.erased b a [] behind split'.symm same unprogrammed
      | cons e mid =>
        obtain ⟨rfl, rfl⟩ := List.cons.inj split'
        have erased := first.erased b a before mid rfl same fun within => unprogrammed (List.mem_append_left _ within)
        exact second.stays_erased (fun within => unprogrammed (List.mem_append_right _ within)) erased
  idle := fun start => second.idle (first.idle start)

end History

section Driver

variable {d : Device}

theorem history_writeByte (address : Addr) (value : Byte) (d : Device) :
    History d (prvWriteByte address value d) [.program address] := by
  rw [prvWriteByte_eq]
  refine .of_noErase rfl (by simp) ?_ ?_ fun _ => rfl
  · intro b
    dsimp only
    by_cases here : b = address
    · subst here
      rw [Function.update_self, ← BitVec.and_assoc, BitVec.and_self]
    · rw [Function.update_of_ne here, BitVec.and_self]
  · intro b unprogrammed
    have other : b ≠ address := by
      rintro rfl
      exact unprogrammed List.mem_cons_self
    exact Function.update_of_ne other _ _

theorem history_eraseSector (addr : Addr) (d : Device) :
    History d (exampleInternalFlashEraseSector addr d) [.erase addr] := by
  rw [exampleInternalFlashEraseSector_eq]
  have kept {b : Addr} (others : ∀ a, .erase a ∈ [Event.erase addr] → ¬ SamePage a b) :
      ¬ b.toNat / flashSectorSize = addr.toNat / flashSectorSize :=
    fun same => others addr List.mem_cons_self same.symm
  refine ⟨rfl, ?_, ?_, ?_, fun _ => rfl⟩
  · intro b others
    dsimp only
    rw [if_neg (kept others), BitVec.and_self]
  · intro b others _
    exact if_neg (kept others)
  · intro b a before behind split same _
    have within : Event.erase a ∈ [Event.erase addr] := split ▸ List.mem_append_right _ List.mem_cons_self
    obtain rfl := Event.erase.inj (List.mem_singleton.1 within)
    exact if_pos same.symm

/-- The loop of the write. -/
theorem history_writeLoop (addr : Addr) (buf : Nat → Byte) (n : Nat) (d : Device) :
    ∃ es, History d (writeLoop addr buf n d) es := by
  induction n with
  | zero => exact ⟨[], .refl⟩
  | succ n ih =>
    obtain ⟨es, before⟩ := ih
    exact ⟨_, before.trans (history_writeByte _ _ _)⟩

/-- The loop of the erase. -/
theorem history_eraseLoop (startAddr len : BitVec 32) (n : Nat) (i : BitVec 32) (d : Device) :
    ∃ es, History d (eraseLoop startAddr len n i d) es := by
  induction n generalizing i d with
  | zero => exact ⟨[], .refl⟩
  | succ n ih =>
    rw [eraseLoop]
    split
    · obtain ⟨es, behind⟩ := ih (i + BitVec.ofNat 32 flashSectorSize)
        (exampleInternalFlashEraseSector (startAddr + i) d)
      exact ⟨_, (history_eraseSector _ _).trans behind⟩
    · exact ⟨[], .refl⟩

end Driver

section Calls

variable (fa : FlashArea) (off len : BitVec 32) (src : Nat → Byte) (d : Device)

theorem history_read : ∃ es, History d (flashAreaRead fa off len d).2.2 es := by
  rw [flashAreaRead]
  split
  · exact ⟨[], .refl⟩
  dsimp only
  split
  · exact ⟨_, .log _ _⟩
  · have noErase (as : List Addr) (a : Addr) : Event.erase a ∉ as.map .copy := by simp
    exact ⟨_, History.quiet _ (noErase _)⟩

theorem history_write : ∃ es, History d (flashAreaWrite fa off src len d).2 es := by
  rw [flashAreaWrite]
  split
  · exact ⟨[], .refl⟩
  dsimp only
  split
  · exact ⟨_, .log _ _⟩
  obtain ⟨es, driver⟩ := history_writeLoop (fa.faOff + off) src len.toNat
    (d.logDbg "%s: Addr: 0x%08x Length: %d" [.str "flash_area_write", .num (fa.faOff + off), .num len])
  have logged := (History.log _ _).trans driver
  split
  · exact ⟨_, logged⟩
  · exact ⟨_, logged.trans (.log _ _)⟩

theorem history_erase : ∃ es, History d (flashAreaErase fa off len d).2 es := by
  rw [flashAreaErase]
  split
  · exact ⟨[], .refl⟩
  split
  · exact ⟨_, .log _ _⟩
  dsimp only
  obtain ⟨es, driver⟩ := history_eraseLoop (fa.faOff + off) len len.toNat 0
    (d.logDbg "%s: Addr: 0x%08x Length: %d" [.str "flash_area_erase", .num (fa.faOff + off), .num len])
  have logged := (History.log _ _).trans driver
  split
  · exact ⟨_, logged⟩
  · exact ⟨_, logged.trans (.log _ _)⟩

end Calls

/-- Some events account for the difference. -/
def Accounts (d t : Device) : Prop := ∃ es, History d t es

/-- **One call**, on whatever area and with whatever arguments. -/
theorem accounts_call {q : Area × Call} {d t : Device} {answer : Area × Answer}
    (call : flashCalls d q = some (t, answer)) : Accounts d t := by
  obtain ⟨⟨t', a⟩, performed, rest⟩ := Option.map_eq_some_iff.1 call
  obtain ⟨rfl, -⟩ := Prod.mk.inj rest
  have device {d u : Device} {dst : List Byte} {outcome : Outcome} (returned : answered u dst outcome = some (t', a))
      (known : Accounts d u) : Accounts d t' := by
    cases outcome with
    | returned rc =>
      obtain ⟨rfl, -⟩ := Prod.mk.inj (Option.some.inj returned)
      exact known
    | trapped => cases returned
  obtain ⟨a, q⟩ := q
  cases q with
  | read off len => exact device performed (history_read a.1 off len d)
  | write off src len => exact device performed (history_write a.1 off len src d)
  | erase off len => exact device performed (history_erase a.1 off len d)

/-- **The record accounts for the flash** over every sequence of calls on the areas, whatever their
arguments: a byte that changed was programmed or its page was erased, without an erase of its page
a byte only loses bits, one that was erased and not programmed since reads 0xff, and the controller
is back in read mode. -/
theorem flash_history {qs : List (Area × Call)} {d d' : Device} {as : List (Area × Answer)}
    (run : flashCalls.serve d qs = some (d', as)) : ∃ es, History d d' es := by
  have accounts : Accounts d d' := by
    refine Service.serve_invariant (⟨[], .refl⟩ : Accounts d d) run ?_
    rintro t q u a ⟨es, before⟩ - call
    obtain ⟨es', behind⟩ := accounts_call call
    exact ⟨es ++ es', before.trans behind⟩
  exact accounts

/-- Two writes to one byte, a write whose range wraps around to the end of the area before, and an erase of the
first page. -/
def wrapping : List (Area × Call) :=
  [(primary, .write 8 (fun _ => 0x5f) 1), (primary, .write 8 (fun _ => 0x50) 1),
    (secondary, .write 0xFFFFFFFF (fun _ => 0) 1), (primary, .erase 0 4096)]

theorem flash_history_wrapping :
    ∃ d' as, flashCalls.serve blank wrapping = some (d', as) ∧ d'.config = nvmcConfigRen ∧
      (d'.flash 0x8008, d'.flash 0x27FFF) = (0xff, 0) ∧ ∃ es, History blank d' es := by
  have served : (flashCalls.serve blank wrapping).map (fun t => (t.1.flash 0x8008, t.1.flash 0x27FFF)) =
      some (0xff, 0) := by decide +kernel
  obtain ⟨⟨d', as⟩, run, bytes⟩ := Option.map_eq_some_iff.1 served
  obtain ⟨es, history⟩ := flash_history run
  exact ⟨d', as, run, history.idle rfl, bytes, es, history⟩

end Maskset.Flash
