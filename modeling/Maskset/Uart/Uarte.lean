import Maskset.Logic.Memory
import Mathlib.Logic.Function.Basic

/-!
# The UART driver

`minimal_nrf52_uart.c` over the receiver of the peripheral: `TASKS_STARTRX` begins a
reception into `s_rx_recv_buf`, and the byte that makes it `RXD.MAXCNT` long ends it and
sets `EVENTS_ENDRX`. With flow control on, no byte arrives while nothing is received.
-/

namespace Maskset.Uart
set_option autoImplicit false

open Maskset.Logic

structure Psel where
  rts : BitVec 32
  txd : BitVec 32
  cts : BitVec 32
  rxd : BitVec 32

/-- The registers that the driver uses for reception, and the state of the receiver.
`RXD.PTR` is `s_rx_recv_buf` from `uart_boot` on. -/
structure Uarte where
  psel : Psel
  baudrate : BitVec 32
  config : BitVec 32
  enable : BitVec 32
  rxdMaxcnt : BitVec 32
  inten : BitVec 32
  eventsEndrx : BitVec 32
  receiving : Bool
  amount : Nat

/-- The priority and the enable registers of the interrupt controller. -/
structure Nvic where
  ipr : Nat → BitVec 32
  iser : BitVec 32

structure Driver where
  uarte : Uarte
  nvic : Nvic
  sRxRecvBuf : Vector Char 4

namespace Driver

def prvEnableNvic (extiId : Nat) (d : Driver) : Driver :=
  { d with nvic := {
      ipr := Function.update d.nvic.ipr (extiId / 4) (0xe0#32 <<< (extiId % 4 * 8))
      iser := d.nvic.iser ||| 1#32 <<< (extiId % 32) } }

/-- `UARTE->TASKS_STARTRX = 1`. -/
def startRx (d : Driver) : Driver := { d with uarte := { d.uarte with receiving := true, amount := 0 } }

def uartBoot (d : Driver) : Driver :=
  let d := { d with uarte := { d.uarte with psel := ⟨5, 6, 7, 8⟩ } }
  let d := { d with uarte := { d.uarte with baudrate := 0x01D60000 } } -- 115200
  -- no parity, 1 stop bit, flow control
  let d := { d with uarte := { d.uarte with config := 1 } }
  let d := { d with uarte := { d.uarte with enable := 8 } }
  let d := { d with sRxRecvBuf := .replicate 4 '\x00' }
  let d := { d with uarte := { d.uarte with rxdMaxcnt := 1 } }
  let d := d.prvEnableNvic 2
  let d := { d with uarte := { d.uarte with inten := d.uarte.inten ||| 1#32 <<< 4 } }
  d.startRx

/-- A byte from the line. -/
def arrive (c : Char) (d : Driver) : Option Driver :=
  if d.uarte.enable = 8 ∧ d.uarte.receiving then do
    let sRxRecvBuf ← store d.sRxRecvBuf d.uarte.amount c
    let d := { d with sRxRecvBuf, uarte := { d.uarte with amount := d.uarte.amount + 1 } }
    pure (if d.uarte.amount = d.uarte.rxdMaxcnt.toNat then
      { d with uarte := { d.uarte with eventsEndrx := 1, receiving := false } } else d)
  else none

/-- The interrupt is let through to the processor. -/
def irqEnabled (extiId : Nat) (d : Driver) : Prop := d.nvic.iser.getLsbD extiId = true

instance (extiId : Nat) (d : Driver) : Decidable (d.irqEnabled extiId) := inferInstanceAs (Decidable (_ = _))

/-- `Irq2_Handler` with the callback that it calls: what the callback leaves, and the driver. -/
def irq2Handler {β : Type} (callback : Char → β → Option β) (b : β) (d : Driver) : Option (β × Driver) :=
  if d.uarte.eventsEndrx ≠ 0 then do
    let d := { d with uarte := { d.uarte with eventsEndrx := 0 } }
    let c ← load d.sRxRecvBuf 0
    let b ← callback c b
    -- re-arm
    pure (b, d.startRx)
  else some (b, d)

end Driver

/-! ## What the driver does -/

/-- The byte that has been received and is not yet handled, by the state of the driver. -/
inductive Pending (d : Driver) : Option Char → Prop where
  | listening (noEvent : d.uarte.eventsEndrx = 0) (receiving : d.uarte.receiving = true) (first : d.uarte.amount = 0) :
      Pending d none
  | received {c} (event : d.uarte.eventsEndrx ≠ 0) (idle : d.uarte.receiving = false)
      (there : load d.sRxRecvBuf 0 = some c) : Pending d (some c)

/-- The peripheral as `uart_boot` configures it: bytes one at a time, their interrupt enabled. -/
structure Configured (d : Driver) : Prop where
  enabled : d.uarte.enable = 8
  single : d.uarte.rxdMaxcnt = 1
  requests : d.uarte.inten.getLsbD 4 = true
  passes : d.irqEnabled 2

section Driver

variable {d d' : Driver} {c : Char}

theorem prvEnableNvic_irqEnabled {extiId other : Nat} (single : extiId < 32) :
    (d.prvEnableNvic extiId).irqEnabled other ↔ other = extiId ∨ d.irqEnabled other := by
  have index : extiId % 32 = extiId := Nat.mod_eq_of_lt single
  rw [Driver.irqEnabled, Driver.irqEnabled, Driver.prvEnableNvic]
  simp only [BitVec.getLsbD_or, index, BitVec.getLsbD_shiftLeft, BitVec.getLsbD_one, Bool.or_eq_true,
    Bool.and_eq_true, decide_eq_true_eq, Bool.not_eq_true', decide_eq_false_iff_not]
  constructor
  · rintro (before | new)
    · exact .inr before
    · exact .inl (by omega)
  · rintro (rfl | before)
    · exact .inr (by omega)
    · exact .inl before

/-- **After `uart_boot`** the peripheral is configured and listens, whatever the registers were,
but for an event that was already there. -/
theorem uartBoot_configured (d : Driver) : Configured d.uartBoot := by
  have passes := (@prvEnableNvic_irqEnabled d 2 2 (by decide)).2 (.inl rfl)
  refine ⟨rfl, rfl, ?_, passes⟩
  change (d.uarte.inten ||| 1#32 <<< 4).getLsbD 4 = true
  rw [BitVec.getLsbD_or]
  exact Bool.or_true _

theorem uartBoot_pending (noEvent : d.uarte.eventsEndrx = 0) : Pending d.uartBoot none := .listening noEvent rfl rfl

/-- A byte ends the reception, and the next one has to wait. -/
theorem arrive_cases (configured : Configured d) (pending : Pending d none) (c : Char) :
    ∃ d', d.arrive c = some d' ∧ Configured d' ∧ Pending d' (some c) := by
  obtain ⟨enabled, single, requests, passes⟩ := configured
  cases pending with
  | listening noEvent receiving first =>
    have stored : store d.sRxRecvBuf d.uarte.amount c = some (d.sRxRecvBuf.set 0 c) := by
      rw [first]
      exact store_eq (by decide)
    have ends : d.uarte.amount + 1 = d.uarte.rxdMaxcnt.toNat := by rw [first, single]; rfl
    let uarte := { d.uarte with amount := d.uarte.amount + 1, eventsEndrx := 1, receiving := false }
    refine ⟨{ d with sRxRecvBuf := d.sRxRecvBuf.set 0 c, uarte }, ?_, ?_, ?_⟩
    · rw [Driver.arrive, if_pos ⟨enabled, receiving⟩, stored, Option.bind_eq_bind, Option.bind_some]
      dsimp only
      rw [if_pos ends]
      rfl
    · exact ⟨enabled, single, requests, passes⟩
    · have there : load (d.sRxRecvBuf.set 0 c) 0 = some c := load_store (store_eq (by decide))
      have event : (1 : BitVec 32) ≠ 0 := by decide
      exact .received event rfl there

theorem arrive_pending (pending : Pending d (some c)) (c' : Char) : d.arrive c' = none := by
  cases pending with
  | received event idle there => exact if_neg fun open' => Bool.noConfusion (idle.symm.trans open'.2)

section Handler

variable {β : Type} {callback : Char → β → Option β} {b : β}

/-- The handler passes the byte to the callback and listens again. -/
theorem irq2Handler_received (configured : Configured d) (pending : Pending d (some c)) :
    ∃ d', d.irq2Handler callback b = (callback c b).map (·, d') ∧ Configured d' ∧ Pending d' none := by
  cases pending with
  | received event idle there =>
    refine ⟨({ d with uarte := { d.uarte with eventsEndrx := 0 } } : Driver).startRx, ?_, ?_, .listening rfl rfl rfl⟩
    · rw [Driver.irq2Handler, if_pos event]
      dsimp only
      rw [there, Option.bind_eq_bind, Option.bind_some, Option.map_eq_bind]
      rfl
    · exact ⟨configured.enabled, configured.single, configured.requests, configured.passes⟩

/-- Without an event it does nothing. -/
theorem irq2Handler_listening (pending : Pending d none) : d.irq2Handler callback b = some (b, d) := by
  cases pending with
  | listening noEvent => exact if_neg (not_not_intro noEvent)

end Handler

end Driver

end Maskset.Uart
