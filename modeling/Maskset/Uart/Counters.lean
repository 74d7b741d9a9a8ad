import Maskset.Uart.ShellPort

/-!
# The counters of the receive buffer

Between the check of `shell_port_getchar` and its decrement an interrupt can only raise
`num_bytes`. So the decrement never wraps, both indices stay in range under every
interleaving, and `num_bytes` is what was accepted and not yet removed.
-/

namespace Maskset.Uart
set_option autoImplicit false

open Maskset.Logic

/-- The call has seen a byte and has not yet removed it. -/
def Pc.Claimed : Pc → Prop
  | .read | .disableIrq _ | .advance _ | .decrement _ => True
  | .check | .enableIrq _ | .ret _ => False

/-- The call is inside its interrupt-disabled window. -/
def Pc.Masked : Pc → Prop
  | .advance _ | .decrement _ | .enableIrq _ => True
  | .check | .read | .disableIrq _ | .ret _ => False

/-- What holds of the counters between any two events. -/
structure Counted (s : Port) : Prop where
  inRange : s.buffer.readIdx < bufSize
  atMost : s.buffer.numBytes ≤ bufSize
  balance : s.buffer.numBytes + s.removed = s.accepted.length
  claimed : s.pc.Claimed → s.buffer.numBytes ≠ 0
  masked : s.pc.Masked → s.irqEnabled = false

theorem counted_init : Counted {} := ⟨by decide, by decide, rfl, False.elim, False.elim⟩

section Steps

variable {s t : Port} {c : Char} {b : UartBuffer}

/-- What the callback does to a buffer whose index is in range. -/
theorem isr_cases (c : Char) (inRange : b.readIdx < bufSize) :
    (b.numBytes ≥ bufSize ∧ uartByteReceivedFromIsrCb c b = some b) ∨
      (b.numBytes < bufSize ∧ ∃ b', uartByteReceivedFromIsrCb c b = some b' ∧ b'.readIdx = b.readIdx ∧
        b'.numBytes = b.numBytes + 1) := by
  by_cases full : b.numBytes ≥ bufSize
  · exact .inl ⟨full, if_pos full⟩
  · have room : b.numBytes < bufSize := Nat.lt_of_not_ge full
    refine .inr ⟨room, ?_⟩
    rw [uartByteReceivedFromIsrCb, if_neg full, store_eq inRange]
    refine ⟨_, rfl, rfl, ?_⟩
    exact sizeSucc_eq (Nat.lt_trans room (by decide))

/-- A byte only raises the count, up to 64. -/
theorem Counted.isr (counted : Counted s) (step : port s (.isr c) = some t) : Counted t := by
  rw [port] at step
  split at step
  case isFalse => cases step
  rename_i enabled
  rcases isr_cases c counted.inRange with ⟨full, dropped⟩ | ⟨room, b', stored, idx, count⟩
  · rw [dropped] at step
    obtain rfl := Option.some.inj step
    constructor
    · exact counted.inRange
    · exact counted.atMost
    · have rejected : ¬ s.buffer.numBytes < bufSize := Nat.not_lt.2 full
      simp only [if_neg rejected]
      exact counted.balance
    · exact counted.claimed
    · exact counted.masked
  · rw [stored] at step
    obtain rfl := Option.some.inj step
    have balance := counted.balance
    constructor
    · simp only [idx]
      exact counted.inRange
    · simp only [count]
      exact room
    · simp only [count, if_pos room, List.length_append, List.length_singleton]
      omega
    · intro _
      simp only [count]
      omega
    · exact counted.masked

/-- Every statement of the main loop keeps the count. -/
theorem Counted.main (counted : Counted s) (step : port s .main = some t) : Counted t := by
  obtain ⟨inRange, atMost, balance, claimed, masked⟩ := counted
  obtain ⟨buffer, irq, pc, accepted, removed, calls⟩ := s
  simp only [port, shellPortGetcharStep] at *
  cases pc with
  | check =>
    simp only at step
    split at step
    · obtain rfl := Option.some.inj step
      exact ⟨inRange, atMost, balance, claimed, masked⟩
    · rename_i pending
      obtain rfl := Option.some.inj step
      exact ⟨inRange, atMost, balance, fun _ => pending, False.elim⟩
  | read =>
    obtain ⟨c, -, rest⟩ := Option.bind_eq_some_iff.1 step
    obtain rfl := Option.some.inj rest
    exact ⟨inRange, atMost, balance, claimed, False.elim⟩
  | disableIrq c =>
    obtain rfl := Option.some.inj step
    exact ⟨inRange, atMost, balance, claimed, fun _ => rfl⟩
  | advance c =>
    obtain rfl := Option.some.inj step
    have wraps : sizeSucc buffer.readIdx % bufSize < bufSize := Nat.mod_lt _ (by decide)
    exact ⟨wraps, atMost, balance, claimed, masked⟩
  | decrement c =>
    obtain rfl := Option.some.inj step
    have pending : buffer.numBytes ≠ 0 := claimed trivial
    have fewer : sizePred buffer.numBytes = buffer.numBytes - 1 := sizePred_eq pending
    refine ⟨inRange, ?_, ?_, False.elim, masked⟩
    · simp only [fewer]
      omega
    · simp only [fewer]
      omega
  | enableIrq c =>
    obtain rfl := Option.some.inj step
    exact ⟨inRange, atMost, balance, False.elim, False.elim⟩
  | ret c =>
    obtain rfl := Option.some.inj step
    exact ⟨inRange, atMost, balance, False.elim, False.elim⟩

/-- Every interleaving keeps the count. -/
theorem Counted.run {es : List Event} (run : port.Run (fun _ _ => True) {} es s) : Counted s := by
  refine run.invariant counted_init ?_
  intro t e u counted _ step
  cases e with
  | isr c => exact counted.isr step
  | main => exact counted.main step

/-- No access of the main loop leaves the buffer. -/
theorem Counted.main_isSome (counted : Counted s) : (port s .main).isSome := by
  obtain ⟨buffer, irq, pc, accepted, removed, calls⟩ := s
  cases pc with
  | read =>
    have there : buffer.readIdx < buffer.buf.toList.length := by
      rw [Vector.length_toList]
      exact counted.inRange
    simp [port, shellPortGetcharStep, load, List.getElem?_eq_getElem there]
  | check =>
    simp only [port, shellPortGetcharStep]
    split <;> rfl
  | disableIrq c => rfl
  | advance c => rfl
  | decrement c => rfl
  | enableIrq c => rfl
  | ret c => rfl

/-- Nor does the callback. -/
theorem Counted.isr_isSome (counted : Counted s) (enabled : s.irqEnabled = true) (c : Char) :
    (port s (.isr c)).isSome := by
  rw [port, if_pos enabled]
  rcases isr_cases c counted.inRange with ⟨-, dropped⟩ | ⟨-, b', stored, -, -⟩
  · rw [dropped]
    rfl
  · rw [stored]
    rfl

/-- A byte that leaves the buffer as it was has found it full. -/
theorem Counted.dropped (counted : Counted s) (step : port s (.isr c) = some t) (same : t.buffer = s.buffer) :
    s.accepted.length = s.removed + bufSize := by
  have balance := counted.balance
  have atMost := counted.atMost
  rw [port] at step
  split at step
  case isFalse => cases step
  rcases isr_cases c counted.inRange with ⟨full, -⟩ | ⟨-, b', stored, -, count⟩
  · omega
  · rw [stored] at step
    obtain rfl := Option.some.inj step
    have raised : b'.numBytes = s.buffer.numBytes := congrArg UartBuffer.numBytes same
    omega

/-- Only the check and the last statement add a result. -/
theorem main_calls (step : port s .main = some t) :
    t.calls = s.calls ∨ (s.pc = .check ∧ s.buffer.numBytes = 0 ∧ t.calls = s.calls ++ [none]) ∨
      ∃ c, s.pc = .ret c ∧ t.calls = s.calls ++ [some c] := by
  obtain ⟨buffer, irq, pc, accepted, removed, calls⟩ := s
  simp only [port, shellPortGetcharStep] at step ⊢
  cases pc with
  | check =>
    simp only at step
    split at step
    · rename_i empty
      obtain rfl := Option.some.inj step
      exact .inr (.inl ⟨rfl, empty, rfl⟩)
    · obtain rfl := Option.some.inj step
      exact .inl rfl
  | read =>
    obtain ⟨c, -, rest⟩ := Option.bind_eq_some_iff.1 step
    obtain rfl := Option.some.inj rest
    exact .inl rfl
  | ret c =>
    obtain rfl := Option.some.inj step
    exact .inr (.inr ⟨c, rfl, rfl⟩)
  | disableIrq c => exact .inl (Option.some.inj step ▸ rfl)
  | advance c => exact .inl (Option.some.inj step ▸ rfl)
  | decrement c => exact .inl (Option.some.inj step ▸ rfl)
  | enableIrq c => exact .inl (Option.some.inj step ▸ rfl)

/-- A call returns `false` from its check, where nothing is pending. -/
theorem Counted.returned_false (counted : Counted s) (step : port s .main = some t)
    (refused : t.calls = s.calls ++ [none]) : s.pc = .check ∧ s.accepted.length = s.removed := by
  have balance := counted.balance
  rcases main_calls step with same | ⟨check, empty, -⟩ | ⟨c, -, last⟩
  · have shorter := congrArg List.length (same.symm.trans refused)
    rw [List.length_append, List.length_singleton] at shorter
    omega
  · exact ⟨check, by omega⟩
  · rw [last] at refused
    simp at refused

end Steps

/-- **The counters are safe under every interleaving**: they stay in range and every access
does, the decrement finds a byte and runs with interrupts disabled, the count is what was
accepted and not removed, a byte is dropped only when 64 are pending, and a call returns
`false` only if at its check everything accepted had been removed. -/
theorem counters_safe {es : List Event} {s : Port} (run : port.Run (fun _ _ => True) {} es s) :
    s.buffer.numBytes ≤ 64 ∧ s.buffer.readIdx < 64 ∧ s.buffer.numBytes + s.removed = s.accepted.length ∧
      (∀ c, s.pc = .decrement c → s.buffer.numBytes ≠ 0 ∧ s.irqEnabled = false) ∧
      (port s .main).isSome ∧ (s.irqEnabled = true → ∀ c, (port s (.isr c)).isSome) ∧
      (∀ c t, port s (.isr c) = some t → t.buffer = s.buffer → s.accepted.length = s.removed + 64) ∧
      ∀ t, port s .main = some t → t.calls = s.calls ++ [none] →
        s.pc = .check ∧ s.accepted.length = s.removed := by
  have counted : Counted s := .run run
  refine ⟨counted.atMost, counted.inRange, counted.balance, ?_, counted.main_isSome, counted.isr_isSome, ?_, ?_⟩
  · intro c next
    exact ⟨counted.claimed (next ▸ trivial), counted.masked (next ▸ trivial)⟩
  · intro c t step same
    exact counted.dropped step same
  · intro t step refused
    exact counted.returned_false step refused

/-- A byte, the check and the read of a call, and another byte before the decrement. -/
def raised : List Event := [.isr 'a', .main, .main, .isr 'b', .main, .main]

theorem counters_safe_raised :
    ∃ s, port.exec (fun _ _ => True) {} raised = some s ∧ s.pc = .decrement 'a' ∧ s.buffer.numBytes = 2 ∧
      s.buffer.numBytes + s.removed = s.accepted.length := by
  have run : port.Run (fun _ _ => True) {} raised ((port.exec (fun _ _ => True) {} raised).get (by decide)) :=
    Machine.exec_run (by decide)
  exact ⟨_, by decide, by decide, by decide, (counters_safe run).2.2.1⟩

end Maskset.Uart
