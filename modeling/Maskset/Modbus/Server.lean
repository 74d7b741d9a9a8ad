import Maskset.Logic.Memory
import Maskset.Logic.Service

/-!
# The Modbus server

The user callbacks of `native-modbus`: eight coils in the bits of one byte and eight
holding registers in an array. For its clients the server is two independent maps from
the addresses below 8: a request beyond them is refused and changes nothing, and a read
returns what was written last.
-/

namespace Maskset.Modbus
set_option autoImplicit false

open Maskset.Logic

def numCoils : Nat := 8
def numRegisters : Nat := 8

structure Server where
  holdingReg : Vector (BitVec 16) numRegisters
  coilsState : BitVec 8

inductive Request where
  | coilRd (addr : BitVec 16)
  | coilWr (addr : BitVec 16) (state : Bool)
  | holdingRegRd (addr : BitVec 16)
  | holdingRegWr (addr reg : BitVec 16)
deriving DecidableEq

inductive Code where
  | zero
  | enotsup -- returned negative
deriving DecidableEq

structure LogLine where
  format : String
  args : List Nat
deriving DecidableEq

/-- What a callback returns, what it stores through its pointer and what it logs. -/
structure Answer where
  code : Code
  state : Option Bool := none
  reg : Option (BitVec 16) := none
  log : List LogLine := []
deriving DecidableEq

def refused : Answer := { code := .enotsup }

/-- `BIT(n)`. -/
def bit (n : Nat) : BitVec 32 := 1#32 <<< n

namespace Server

def coilRd (s : Server) (addr : BitVec 16) : Answer :=
  if addr.toNat ≥ numCoils then refused
  else
    let state : Bool := if s.coilsState.setWidth 32 &&& bit addr.toNat ≠ 0 then true else false
    { code := .zero, state := some state, log := [⟨"Coil read, addr %u, %d", [addr.toNat, state.toNat]⟩] }

def coilWr (s : Server) (addr : BitVec 16) (state : Bool) : Server × Answer :=
  if addr.toNat ≥ numCoils then (s, refused)
  else
    let s :=
      if state = true then { s with coilsState := (s.coilsState.setWidth 32 ||| bit addr.toNat).setWidth 8 }
      else { s with coilsState := (s.coilsState.setWidth 32 &&& ~~~bit addr.toNat).setWidth 8 }
    (s, { code := .zero, log := [⟨"Coil write, addr %u, %d", [addr.toNat, state.toNat]⟩] })

def holdingRegRd (s : Server) (addr : BitVec 16) : Option Answer :=
  if addr.toNat ≥ numRegisters then some refused
  else do
    let reg ← load s.holdingReg addr.toNat
    pure { code := .zero, reg := some reg, log := [⟨"Holding register read, addr %u", [addr.toNat]⟩] }

def holdingRegWr (s : Server) (addr reg : BitVec 16) : Option (Server × Answer) :=
  if addr.toNat ≥ numRegisters then some (s, refused)
  else do
    let holdingReg ← store s.holdingReg addr.toNat reg
    pure ({ s with holdingReg }, { code := .zero, log := [⟨"Holding register write, addr %u", [addr.toNat]⟩] })

end Server

/-- The callback of a request; `none` for an access outside of the registers. -/
def server : Service Server Request Answer
  | s, .coilRd addr => some (s, s.coilRd addr)
  | s, .coilWr addr state => some (s.coilWr addr state)
  | s, .holdingRegRd addr => (s.holdingRegRd addr).map fun answer => (s, answer)
  | s, .holdingRegWr addr reg => s.holdingRegWr addr reg

/-! ## What a client sees -/

/-- The values at the addresses. -/
@[ext] structure Maps where
  coil : Fin numCoils → Bool
  reg : Fin numRegisters → BitVec 16

/-- The abstract server. -/
def maps : Service Maps Request Answer
  | m, .coilRd addr =>
    if inRange : addr.toNat < numCoils then
      some (m, { code := .zero, state := some (m.coil ⟨_, inRange⟩),
                 log := [⟨"Coil read, addr %u, %d", [addr.toNat, (m.coil ⟨_, inRange⟩).toNat]⟩] })
    else some (m, refused)
  | m, .coilWr addr state =>
    if inRange : addr.toNat < numCoils then
      some ({ m with coil := Function.update m.coil ⟨_, inRange⟩ state },
        { code := .zero, log := [⟨"Coil write, addr %u, %d", [addr.toNat, state.toNat]⟩] })
    else some (m, refused)
  | m, .holdingRegRd addr =>
    if inRange : addr.toNat < numRegisters then
      some (m, { code := .zero, reg := some (m.reg ⟨_, inRange⟩),
                 log := [⟨"Holding register read, addr %u", [addr.toNat]⟩] })
    else some (m, refused)
  | m, .holdingRegWr addr reg =>
    if inRange : addr.toNat < numRegisters then
      some ({ m with reg := Function.update m.reg ⟨_, inRange⟩ reg },
        { code := .zero, log := [⟨"Holding register write, addr %u", [addr.toNat]⟩] })
    else some (m, refused)

/-- What the server keeps, by addresses. -/
def Server.view (s : Server) : Maps := ⟨fun k => s.coilsState.getLsbD k, fun k => s.holdingReg.get k⟩

/-- One address of a map, compared as a number. -/
theorem update_at {α : Type} {n i : Nat} (f : Fin n → α) (inRange : i < n) (v : α) (k : Fin n) :
    Function.update f ⟨i, inRange⟩ v k = if i = k then v else f k := by
  have same : k = ⟨i, inRange⟩ ↔ i = k := by rw [Fin.ext_iff, eq_comm]
  rw [Function.update_apply]
  exact if_congr same rfl rfl

section Bits

variable {coils : BitVec 8} {n k : Nat}

theorem getLsbD_bit (inRange : n < numCoils) : (bit n).getLsbD k = decide (n = k) := by
  have small : n < 32 := Nat.lt_trans inRange (by decide)
  change (BitVec.twoPow 32 n).getLsbD k = decide (n = k)
  rw [BitVec.getLsbD_twoPow, decide_eq_true small, Bool.true_and]

/-- The test of a coil. -/
theorem and_bit_ne_zero (inRange : n < numCoils) : coils.setWidth 32 &&& bit n ≠ 0 ↔ coils.getLsbD n = true := by
  have small : n < 32 := Nat.lt_trans inRange (by decide)
  have tested : coils.setWidth 32 &&& bit n = if (coils.setWidth 32).getLsbD n then bit n else 0#32 :=
    BitVec.and_twoPow _ n
  have nonzero : bit n ≠ 0 := by
    intro zero
    have here := @getLsbD_bit n n inRange
    rw [zero, decide_eq_true rfl] at here
    exact Bool.noConfusion (here.symm.trans BitVec.getLsbD_zero)
  rw [tested, BitVec.getLsbD_setWidth, decide_eq_true small, Bool.true_and]
  cases coils.getLsbD n with
  | true => exact iff_of_true nonzero rfl
  | false => exact iff_of_false (fun ne => ne rfl) Bool.noConfusion

/-- A coil that is set or cleared is, and the others stay. -/
theorem getLsbD_set (inRange : n < numCoils) (within : k < numCoils) :
    ((coils.setWidth 32 ||| bit n).setWidth 8).getLsbD k = (coils.getLsbD k || decide (n = k)) := by
  have small : k < 32 := Nat.lt_trans within (by decide)
  have small8 : k < 8 := within
  rw [BitVec.getLsbD_setWidth, BitVec.getLsbD_or, BitVec.getLsbD_setWidth, getLsbD_bit inRange,
    decide_eq_true small, decide_eq_true small8, Bool.true_and, Bool.true_and]

theorem getLsbD_clear (inRange : n < numCoils) (within : k < numCoils) :
    ((coils.setWidth 32 &&& ~~~bit n).setWidth 8).getLsbD k = (coils.getLsbD k && !decide (n = k)) := by
  have small : k < 32 := Nat.lt_trans within (by decide)
  have small8 : k < 8 := within
  rw [BitVec.getLsbD_setWidth, BitVec.getLsbD_and, BitVec.getLsbD_setWidth, BitVec.getLsbD_not, getLsbD_bit inRange,
    decide_eq_true small, decide_eq_true small8, Bool.true_and, Bool.true_and, Bool.true_and]

end Bits

section Callbacks

variable {s : Server} {addr reg : BitVec 16} {state : Bool}

/-- The test of a coil, as the callback makes it. -/
theorem coilRd_eq (inRange : addr.toNat < numCoils) :
    s.coilRd addr = { code := .zero, state := some (s.view.coil ⟨_, inRange⟩),
                      log := [⟨"Coil read, addr %u, %d", [addr.toNat, (s.view.coil ⟨_, inRange⟩).toNat]⟩] } := by
  have tested : (if s.coilsState.setWidth 32 &&& bit addr.toNat ≠ 0 then true else false) =
      s.view.coil ⟨_, inRange⟩ := by
    change _ = s.coilsState.getLsbD addr.toNat
    split
    · rename_i set
      exact ((and_bit_ne_zero inRange).1 set).symm
    · rename_i clear
      exact (Bool.eq_false_iff.2 (mt (and_bit_ne_zero inRange).2 clear)).symm
  rw [Server.coilRd, if_neg (Nat.not_le.2 inRange), tested]

/-- A write to a coil changes this coil. -/
theorem coilWr_view (inRange : addr.toNat < numCoils) :
    (s.coilWr addr state).1.view = { s.view with coil := Function.update s.view.coil ⟨_, inRange⟩ state } := by
  have coil (k : Fin numCoils) :
      (s.coilWr addr state).1.view.coil k = Function.update s.view.coil ⟨_, inRange⟩ state k := by
    rw [update_at, Server.coilWr, if_neg (Nat.not_le.2 inRange)]
    cases state with
    | true =>
      refine (getLsbD_set inRange k.2).trans ?_
      by_cases here : addr.toNat = k
      · rw [if_pos here, decide_eq_true here, Bool.or_true]
      · rw [if_neg here, decide_eq_false here, Bool.or_false]
        rfl
    | false =>
      refine (getLsbD_clear inRange k.2).trans ?_
      by_cases here : addr.toNat = k
      · rw [if_pos here, decide_eq_true here]
        exact Bool.and_false _
      · rw [if_neg here, decide_eq_false here]
        exact Bool.and_true _
  have reg : (s.coilWr addr state).1.view.reg = s.view.reg := by
    rw [Server.coilWr, if_neg (Nat.not_le.2 inRange)]
    cases state <;> rfl
  exact Maps.ext (funext coil) reg

theorem holdingRegRd_eq (inRange : addr.toNat < numRegisters) :
    s.holdingRegRd addr = some { code := .zero, reg := some (s.view.reg ⟨_, inRange⟩),
                                 log := [⟨"Holding register read, addr %u", [addr.toNat]⟩] } := by
  have there : load s.holdingReg addr.toNat = some (s.view.reg ⟨_, inRange⟩) := by
    have length : addr.toNat < s.holdingReg.toList.length := by rwa [Vector.length_toList]
    rw [load, List.getElem?_eq_getElem length, Vector.getElem_toList]
    rfl
  rw [Server.holdingRegRd, if_neg (Nat.not_le.2 inRange), there]
  rfl

theorem holdingRegWr_eq (inRange : addr.toNat < numRegisters) :
    ∃ t : Server, s.holdingRegWr addr reg =
        some (t, { code := .zero, log := [⟨"Holding register write, addr %u", [addr.toNat]⟩] }) ∧
      t.view = { s.view with reg := Function.update s.view.reg ⟨_, inRange⟩ reg } := by
  refine ⟨{ s with holdingReg := s.holdingReg.set addr.toNat reg inRange }, ?_, ?_⟩
  · rw [Server.holdingRegWr, if_neg (Nat.not_le.2 inRange), store_eq inRange]
    rfl
  · have registers (k : Fin numRegisters) : (s.holdingReg.set addr.toNat reg inRange).get k =
        Function.update s.view.reg ⟨_, inRange⟩ reg k := by
      rw [update_at]
      exact Vector.getElem_set inRange k.2
    exact Maps.ext rfl (funext registers)

/-- **Every callback does to the maps what a client expects.** -/
theorem server_refines : Service.Refines server maps Server.view fun _ => True := by
  intro s q _
  cases q with
  | coilRd addr =>
    rw [maps, server]
    split
    · rename_i inRange
      rw [coilRd_eq inRange]
      rfl
    · rename_i beyond
      rw [Server.coilRd, if_pos (Nat.le_of_not_lt beyond)]
      rfl
  | coilWr addr state =>
    rw [maps, server]
    split
    · rename_i inRange
      have answer : (s.coilWr addr state).2 =
          { code := .zero, log := [⟨"Coil write, addr %u, %d", [addr.toNat, state.toNat]⟩] } := by
        rw [Server.coilWr, if_neg (Nat.not_le.2 inRange)]
      exact congrArg some (Prod.ext (coilWr_view inRange) answer)
    · rename_i beyond
      rw [Server.coilWr, if_pos (Nat.le_of_not_lt beyond)]
      rfl
  | holdingRegRd addr =>
    rw [maps, server]
    split
    · rename_i inRange
      rw [holdingRegRd_eq inRange]
      rfl
    · rename_i beyond
      rw [Server.holdingRegRd, if_pos (Nat.le_of_not_lt beyond)]
      rfl
  | holdingRegWr addr reg =>
    rw [maps, server]
    split
    · rename_i inRange
      obtain ⟨t, call, view⟩ := @holdingRegWr_eq s addr reg inRange
      rw [call]
      exact congrArg (fun m => some (m, _)) view
    · rename_i beyond
      rw [Server.holdingRegWr, if_pos (Nat.le_of_not_lt beyond)]
      rfl

end Callbacks

/-- **Every sequence of requests** is answered as the maps answer it, and no callback accesses anything
outside of the registers. -/
theorem server_serves (s : Server) (qs : List Request) :
    (server.serve s qs).map (Prod.map Server.view id) = maps.serve s.view qs :=
  server_refines.serve (fun _ _ => trivial) s

/-! ## The last write -/

/-- What a request leaves in the coil at the address. -/
def coilAfter (k : Nat) (v : Bool) : Request → Bool
  | .coilWr addr state => if addr.toNat = k then state else v
  | _ => v

def regAfter (k : Nat) (v : BitVec 16) : Request → BitVec 16
  | .holdingRegWr addr reg => if addr.toNat = k then reg else v
  | _ => v

/-- The last state that was written to the coil, or the one it had. -/
def lastCoil (k : Nat) (v : Bool) (qs : List Request) : Bool := qs.foldl (coilAfter k) v

def lastReg (k : Nat) (v : BitVec 16) (qs : List Request) : BitVec 16 := qs.foldl (regAfter k) v

section Runs

variable {m : Maps} {q : Request} {qs : List Request}

/-- One request on the maps. -/
theorem maps_step (m : Maps) (q : Request) :
    ∃ answer, maps m q = some (⟨fun k => coilAfter k (m.coil k) q, fun k => regAfter k (m.reg k) q⟩, answer) := by
  cases q with
  | coilRd addr =>
    rw [maps]
    split
    · exact ⟨_, rfl⟩
    · exact ⟨_, rfl⟩
  | holdingRegRd addr =>
    rw [maps]
    split
    · exact ⟨_, rfl⟩
    · exact ⟨_, rfl⟩
  | coilWr addr state =>
    rw [maps]
    split
    · rename_i inRange
      have coil := funext (update_at m.coil inRange state)
      exact ⟨_, congrArg (fun m => some (m, _)) (Maps.ext coil rfl)⟩
    · rename_i beyond
      have coil : m.coil = fun k : Fin numCoils => coilAfter k (m.coil k) (.coilWr addr state) := by
        funext k
        have other : ¬ addr.toNat = k := fun here => beyond (here ▸ k.2)
        exact (if_neg other).symm
      exact ⟨_, congrArg (fun m => some (m, _)) (Maps.ext coil rfl)⟩
  | holdingRegWr addr reg =>
    rw [maps]
    split
    · rename_i inRange
      have reg := funext (update_at m.reg inRange reg)
      exact ⟨_, congrArg (fun m => some (m, _)) (Maps.ext rfl reg)⟩
    · rename_i beyond
      have reg : m.reg = fun k : Fin numRegisters => regAfter k (m.reg k) (.holdingRegWr addr reg) := by
        funext k
        have other : ¬ addr.toNat = k := fun here => beyond (here ▸ k.2)
        exact (if_neg other).symm
      exact ⟨_, congrArg (fun m => some (m, _)) (Maps.ext rfl reg)⟩

/-- After a sequence of requests each address holds what was last written to it. -/
theorem maps_run (m : Maps) (qs : List Request) :
    ∃ as, maps.serve m qs = some (⟨fun k => lastCoil k (m.coil k) qs, fun k => lastReg k (m.reg k) qs⟩, as) := by
  induction qs generalizing m with
  | nil => exact ⟨[], rfl⟩
  | cons q qs ih =>
    obtain ⟨answer, first⟩ := maps_step m q
    obtain ⟨as, rest⟩ := ih ⟨fun k => coilAfter k (m.coil k) q, fun k => regAfter k (m.reg k) q⟩
    exact ⟨answer :: as, Service.serve_cons_iff.2 ⟨_, answer, as, first, rest, rfl⟩⟩

end Runs

/-- **A read returns what was written last** to its address, by whatever sequence of requests, and else
what was there before; beyond the last address every request is refused and changes nothing. -/
theorem server_reads_last (s : Server) (qs : List Request) : ∃ t as, server.serve s qs = some (t, as) ∧
    (∀ addr : BitVec 16, ∀ inRange : addr.toNat < numCoils,
      (t.coilRd addr).state = some (lastCoil addr.toNat (s.view.coil ⟨_, inRange⟩) qs)) ∧
    (∀ addr : BitVec 16, ∀ inRange : addr.toNat < numRegisters, ∃ answer, t.holdingRegRd addr = some answer ∧
      answer.reg = some (lastReg addr.toNat (s.view.reg ⟨_, inRange⟩) qs)) ∧
    ∀ addr : BitVec 16, numCoils ≤ addr.toNat → (∀ state reg,
      ∀ q ∈ [Request.coilRd addr, .coilWr addr state, .holdingRegRd addr, .holdingRegWr addr reg],
        server t q = some (t, refused)) := by
  obtain ⟨as, run⟩ := maps_run s.view qs
  rw [← server_refines.serve (fun _ _ => trivial) s] at run
  obtain ⟨⟨t, as'⟩, served, same⟩ := Option.map_eq_some_iff.1 run
  have view : t.view = _ := (Prod.mk.inj same).1
  refine ⟨t, as', served, ?_, ?_, ?_⟩
  · intro addr inRange
    rw [coilRd_eq inRange, view]
  · intro addr inRange
    refine ⟨_, holdingRegRd_eq inRange, ?_⟩
    rw [view]
  · intro addr beyond state reg q within
    simp only [List.mem_cons, List.not_mem_nil, or_false] at within
    rcases within with rfl | rfl | rfl | rfl
    · rw [server, Server.coilRd, if_pos beyond]
    · rw [server, Server.coilWr, if_pos beyond]
    · have beyond' : addr.toNat ≥ numRegisters := beyond
      rw [server, Server.holdingRegRd, if_pos beyond']
      rfl
    · have beyond' : addr.toNat ≥ numRegisters := beyond
      rw [server, Server.holdingRegWr, if_pos beyond']

end Maskset.Modbus
