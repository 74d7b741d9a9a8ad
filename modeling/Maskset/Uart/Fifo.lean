import Maskset.Uart.ShellPort
import Mathlib.Data.List.ReduceOption

/-!
# Is the receive buffer a FIFO?

The callback stores at `read_idx`, where the oldest unread character is, and not
`num_bytes` behind it. A character that arrives while another is pending overwrites
it. As long as none does, what the calls return is a prefix of what was accepted.
-/

namespace Maskset.Uart
set_option autoImplicit false

open Maskset.Logic

/-- No character is accepted while another one is pending. -/
def Alone (s : Port) : Event → Prop
  | .isr _ => s.buffer.numBytes < bufSize → s.buffer.numBytes = 0
  | .main => True

instance (s : Port) : (e : Event) → Decidable (Alone s e)
  | .isr _ => inferInstanceAs (Decidable (_ → _))
  | .main => inferInstanceAs (Decidable True)

/-- The characters that are accepted and not yet returned, by the statement that is
next: at most one in the buffer, and one in the local of the call. -/
inductive Owed (b : UartBuffer) (irq : Bool) : Pc → List Char → Prop where
  | idle (empty : b.numBytes = 0) : Owed b irq .check []
  | arrived {c} (one : b.numBytes = 1) (there : load b.buf b.readIdx = some c) : Owed b irq .check [c]
  | read {c} (one : b.numBytes = 1) (there : load b.buf b.readIdx = some c) : Owed b irq .read [c]
  | disableIrq {c} (one : b.numBytes = 1) : Owed b irq (.disableIrq c) [c]
  | advance {c} (one : b.numBytes = 1) (masked : irq = false) : Owed b irq (.advance c) [c]
  | decrement {c} (one : b.numBytes = 1) (masked : irq = false) : Owed b irq (.decrement c) [c]
  | enableIrq {c} (empty : b.numBytes = 0) (masked : irq = false) : Owed b irq (.enableIrq c) [c]
  | ret {c} (empty : b.numBytes = 0) : Owed b irq (.ret c) [c]
  | retArrived {c d} (one : b.numBytes = 1) (there : load b.buf b.readIdx = some d) : Owed b irq (.ret c) [c, d]

/-- What was accepted is what was returned and what is owed. -/
structure Fifo (s : Port) : Prop where
  inRange : s.buffer.readIdx < bufSize
  owed : ∃ owed, Owed s.buffer s.irqEnabled s.pc owed ∧ s.accepted = s.returned ++ owed

theorem Fifo.returned_prefix {s : Port} (fifo : Fifo s) : s.returned <+: s.accepted := by
  obtain ⟨owed, -, accepted⟩ := fifo.owed
  exact ⟨owed, accepted.symm⟩

theorem fifo_init : Fifo {} := ⟨by decide, [], .idle rfl, rfl⟩

section Steps

variable {s t : Port} {c : Char} {b b' : UartBuffer}

/-- The callback on an empty buffer. -/
theorem isr_empty (empty : b.numBytes = 0) (isr : uartByteReceivedFromIsrCb c b = some b') :
    load b'.buf b'.readIdx = some c ∧ b'.readIdx = b.readIdx ∧ b'.numBytes = 1 := by
  rw [uartByteReceivedFromIsrCb, if_neg (by rw [empty]; decide)] at isr
  obtain ⟨buf, stored, rest⟩ := Option.bind_eq_some_iff.1 isr
  obtain rfl := Option.some.inj rest
  refine ⟨load_store stored, rfl, ?_⟩
  rw [empty, sizeSucc_eq (Nat.zero_lt_succ _)]

/-- The callback keeps the buffer a FIFO when nothing is pending. -/
theorem Fifo.isr (fifo : Fifo s) (alone : Alone s (.isr c)) (step : port s (.isr c) = some t) : Fifo t := by
  obtain ⟨inRange, owed, phase, accepted⟩ := fifo
  rw [port] at step
  split at step
  case isFalse => cases step
  rename_i enabled
  obtain ⟨b', isr, rest⟩ := Option.bind_eq_some_iff.1 step
  obtain rfl := Option.some.inj rest
  have one_pending (one : s.buffer.numBytes = 1) : False := by
    have none_pending := alone (by rw [one]; decide)
    omega
  have fits (empty : s.buffer.numBytes = 0) : s.buffer.numBytes < bufSize := by rw [empty]; decide
  obtain ⟨buffer, irq, pc, accepted', removed, calls⟩ := s
  simp only [Port.returned] at *
  subst accepted
  cases phase with
  | idle empty =>
    obtain ⟨there, idx, one⟩ := isr_empty empty isr
    refine ⟨idx ▸ inRange, [c], .arrived one there, ?_⟩
    simp only [if_pos (fits empty), Port.returned, List.append_nil]
  | ret empty =>
    obtain ⟨there, idx, one⟩ := isr_empty empty isr
    refine ⟨idx ▸ inRange, _, .retArrived one there, ?_⟩
    simp only [if_pos (fits empty), Port.returned, List.append_assoc, List.cons_append, List.nil_append]
  | arrived one => exact (one_pending one).elim
  | read one => exact (one_pending one).elim
  | disableIrq one => exact (one_pending one).elim
  | retArrived one => exact (one_pending one).elim
  | advance one masked => exact (Bool.noConfusion (masked.symm.trans enabled))
  | decrement one masked => exact (Bool.noConfusion (masked.symm.trans enabled))
  | enableIrq empty masked => exact (Bool.noConfusion (masked.symm.trans enabled))

/-- Every statement of the main loop keeps the buffer a FIFO. -/
theorem Fifo.main (fifo : Fifo s) (step : port s .main = some t) : Fifo t := by
  obtain ⟨inRange, owed, phase, accepted⟩ := fifo
  obtain ⟨buffer, irq, pc, accepted', removed, calls⟩ := s
  simp only [port, shellPortGetcharStep, Port.returned] at *
  subst accepted
  cases phase with
  | idle empty =>
    rw [if_pos empty] at step
    obtain rfl := Option.some.inj step
    exact ⟨inRange, [], .idle empty, by simp [Port.returned, List.reduceOption_append]⟩
  | arrived one there =>
    rw [if_neg (by omega)] at step
    obtain rfl := Option.some.inj step
    exact ⟨inRange, _, .read one there, rfl⟩
  | read one there =>
    rw [there] at step
    obtain rfl := Option.some.inj step
    exact ⟨inRange, _, .disableIrq one, rfl⟩
  | disableIrq one =>
    obtain rfl := Option.some.inj step
    exact ⟨inRange, _, .advance one rfl, rfl⟩
  | advance one masked =>
    obtain rfl := Option.some.inj step
    have wraps : sizeSucc buffer.readIdx % bufSize < bufSize := Nat.mod_lt _ (by decide)
    exact ⟨wraps, _, .decrement one masked, rfl⟩
  | decrement one masked =>
    obtain rfl := Option.some.inj step
    have emptied : sizePred buffer.numBytes = 0 := by rw [one, sizePred_eq Nat.one_ne_zero]
    exact ⟨inRange, _, .enableIrq emptied masked, rfl⟩
  | enableIrq empty masked =>
    obtain rfl := Option.some.inj step
    exact ⟨inRange, _, .ret empty, rfl⟩
  | ret empty =>
    obtain rfl := Option.some.inj step
    exact ⟨inRange, [], .idle empty, by simp [Port.returned, List.reduceOption_append]⟩
  | retArrived one there =>
    obtain rfl := Option.some.inj step
    exact ⟨inRange, _, .arrived one there, by simp [Port.returned, List.reduceOption_append]⟩

end Steps

/-- **The receive buffer is a FIFO in every run in which no character is accepted while
another one is pending.** -/
theorem fifo_of_alone {es : List Event} {s : Port} (run : port.Run Alone {} es s) :
    s.returned <+: s.accepted := by
  refine Fifo.returned_prefix (run.invariant fifo_init fun t e u fifo meets step => ?_)
  cases e with
  | isr c => exact fifo.isr meets step
  | main => exact fifo.main step

/-- Two characters, the second while the first is being handed out. -/
def spaced : List Event :=
  [.isr 'a', .main, .main, .main, .main, .main, .main, .isr 'b'] ++ List.replicate 8 .main

theorem fifo_of_alone_spaced :
    ∃ s, port.exec Alone {} spaced = some s ∧ s.returned = ['a', 'b'] ∧ s.returned <+: s.accepted := by
  have run : port.Run Alone {} spaced ((port.exec Alone {} spaced).get (by decide)) :=
    Machine.exec_run (by decide)
  exact ⟨_, by decide, by decide, fifo_of_alone run⟩

/-- Two characters before the first call: it returns the second, and the next call
what was never received. -/
def burst : List Event := [.isr 'a', .isr 'b'] ++ List.replicate 14 .main

theorem overtaken :
    ¬ ∀ es s, port.Run (fun _ _ => True) {} es s → s.returned <+: s.accepted := by
  intro fifo
  have run : port.Run (fun _ _ => True) {} burst ((port.exec (fun _ _ => True) {} burst).get (by decide)) :=
    Machine.exec_run (by decide)
  exact absurd (fifo _ _ run) (by decide)

end Maskset.Uart
