import Maskset.Console.Drain
import Maskset.Shell.Sections

/-!
# How fast may one type?

The receive buffer keeps one byte. Seven statements of the loop between two callbacks are
enough for the first byte to leave the buffer before the second comes in. Then nothing is
lost on the way from the line to the shell, and ten statements after the last byte the
shell has processed everything.
-/

namespace Maskset.Console
set_option autoImplicit false

open Maskset.Logic Maskset.Uart Maskset.Shell

/-- Between two callbacks the loop runs at least seven statements. -/
def Paced (s : State) : Event → Prop
  | .irq2 => s.driver.uarte.eventsEndrx ≠ 0 → 7 ≤ s.quiet
  | .arrive _ => True
  | .statement => True

instance (s : State) : (e : Event) → Decidable (Paced s e)
  | .irq2 => inferInstanceAs (Decidable (_ → _))
  | .arrive _ => inferInstanceAs (Decidable True)
  | .statement => inferInstanceAs (Decidable True)

/-- What holds between any two events of a paced run. -/
structure Keeping (commands : List Command) (start : ShellContext) (s : State) : Prop where
  accounted : Accounted commands start s
  fifo : Fifo s.port
  all : s.port.accepted = s.delivered
  slack : due s ≤ 10 - s.quiet

section Steps

variable {commands : List Command} {start : ShellContext} {s t : State} {p q : Port} {c : Char}

/-- The callback on an empty buffer takes the byte. -/
theorem isr_accepts (empty : p.buffer.numBytes = 0) (isr : port p (.isr c) = some q) :
    q.accepted = p.accepted ++ [c] ∧ q.buffer.numBytes = 1 := by
  rw [port] at isr
  split at isr
  case isFalse => cases isr
  obtain ⟨buffer, stored, rest⟩ := Option.bind_eq_some_iff.1 isr
  obtain rfl := Option.some.inj rest
  have room : p.buffer.numBytes < bufSize := by rw [empty]; decide
  exact ⟨if_pos room, (isr_empty empty stored).2.2⟩

/-- A byte that is pending takes more than three statements to leave the buffer. -/
theorem empty_of_due (soon : due s ≤ 3) : s.port.buffer.numBytes = 0 := by
  rw [due, callDue, round] at soon
  cases pc : s.port.pc <;> simp only [pc] at soon <;> omega

theorem Keeping.irq2 (keeping : Keeping commands start s) (paced : Paced s .irq2)
    (step : console commands s .irq2 = some t) : Keeping commands start t := by
  have accounted := keeping.accounted.step step
  obtain ⟨enabled, rfl | ⟨c, port, driver, isr, -, event, -, -, rfl⟩⟩ := keeping.accounted.sound.irq2_cases step
  · exact keeping
  have slack := keeping.slack
  have ready := paced event
  have empty : s.port.buffer.numBytes = 0 := empty_of_due (by omega)
  obtain ⟨accepted, one⟩ := isr_accepts empty isr
  obtain ⟨pc, -⟩ := isr_effect isr
  have unmasked : ¬ port.pc.Masked := by
    intro masked
    have off := keeping.accounted.sound.counted.masked (pc ▸ masked)
    exact Bool.noConfusion (off.symm.trans enabled)
  refine ⟨accounted, keeping.fifo.isr (fun _ => empty) isr, ?_, ?_⟩
  · exact accepted.trans (congrArg (· ++ [c]) keeping.all)
  · rcases due_le accounted.sound with bound | ⟨masked, -⟩
    · rw [one] at bound
      exact bound
    · exact (unmasked masked).elim

theorem Keeping.statement (keeping : Keeping commands start s) (step : console commands s .statement = some t) :
    Keeping commands start t := by
  have accounted := keeping.accounted.step step
  obtain ⟨-, lower⟩ := keeping.accounted.statement step
  obtain ⟨u, goes, -, frame⟩ := keeping.accounted.sound.statement
  obtain rfl := Option.some.inj (goes.symm.trans step)
  have slack := keeping.slack
  refine ⟨accounted, ?_, ?_, ?_⟩
  · rcases frame.call with same | call
    · exact same ▸ keeping.fifo
    · exact keeping.fifo.main call
  · exact frame.accepted.trans (keeping.all.trans frame.delivered.symm)
  · rw [lower, frame.quiet]
    omega

theorem Keeping.step (keeping : Keeping commands start s) {e : Event} (paced : Paced s e)
    (step : console commands s e = some t) : Keeping commands start t := by
  cases e with
  | arrive c =>
    obtain ⟨-, -, -, driver, arrived, rfl⟩ := keeping.accounted.sound.arrive step
    exact ⟨keeping.accounted.step step, keeping.fifo, keeping.all, keeping.slack⟩
  | irq2 => exact keeping.irq2 paced step
  | statement => exact keeping.statement step

theorem keeping_entered (driver : Driver) (noEvent : driver.uarte.eventsEndrx = 0) :
    Keeping commands start (entered driver.uartBoot start) where
  accounted := accounted_entered driver noEvent
  fifo := fifo_init
  all := rfl
  slack := Nat.le_add_left 1 2

/-- What the shell has got is what came off the line, up to what is still on its way. -/
theorem Keeping.processed (keeping : Keeping commands start s) : s.processed <+: s.arrived := by
  obtain ⟨pending, -, line⟩ := keeping.accounted.sound.line
  obtain ⟨rest, returned⟩ := keeping.fifo.returned_prefix
  refine ⟨s.loop.inHand ++ rest ++ pending.toList, ?_⟩
  rw [line, ← keeping.all, ← returned, keeping.accounted.sound.returned]
  simp only [List.append_assoc]

/-- Ten statements after the last byte nothing is on its way. -/
theorem Keeping.rested (keeping : Keeping commands start s) (noEvent : s.driver.uarte.eventsEndrx = 0)
    (rest : 10 ≤ s.quiet) : Idle s ∧ s.processed = s.arrived := by
  have sound := keeping.accounted.sound
  have slack := keeping.slack
  have idle := idle_of_due sound (by omega)
  refine ⟨idle, ?_⟩
  obtain ⟨pending, waits, line⟩ := sound.line
  obtain ⟨owed, phase, accepted⟩ := keeping.fifo.owed
  have returned := sound.returned
  rw [idle.pc] at phase
  rw [idle.loop, Loop.inHand, List.append_nil] at returned
  cases waits with
  | received event => exact (event noEvent).elim
  | listening =>
    cases phase with
    | arrived one => exact absurd (idle.empty.symm.trans one) Nat.zero_ne_one
    | idle =>
      rw [line, ← keeping.all, accepted, returned, List.append_nil]
      exact (List.append_nil _).symm

end Steps

/-- **What is typed is executed**, if the loop runs at least seven statements between two callbacks:
no byte is dropped, the shell gets what came off the line in order, and ten statements after the
last byte it is where this stream takes it, having run the lines of the stream. -/
theorem console_executes (commands : List Command) (driver : Driver) (noEvent : driver.uarte.eventsEndrx = 0)
    (start : ShellContext) {es : List Event} {s : State}
    (run : (console commands).Run Paced (entered driver.uartBoot start) es s) :
    s.port.accepted = s.delivered ∧ s.processed <+: s.arrived ∧
      (s.driver.uarte.eventsEndrx = 0 → 10 ≤ s.quiet →
        Idle s ∧ receiveAll commands (shellBoot start) s.arrived = some s.shell ∧
          ('\x00' ∉ s.arrived → s.shell.results = start.results ++
            (sections s.arrived).flatMap fun line => lineEvents commands (arguments line))) := by
  have keeping : Keeping commands start s :=
    run.invariant (keeping_entered driver noEvent) fun _ _ _ keeping paced step => keeping.step paced step
  refine ⟨keeping.all, keeping.processed, ?_⟩
  intro quiet rest
  obtain ⟨idle, same⟩ := keeping.rested quiet rest
  have shell := keeping.accounted.sound.follows.booted (by simp [idle.loop])
  rw [same] at shell
  refine ⟨idle, shell, ?_⟩
  intro noNul
  obtain ⟨shell', run', follows⟩ := receiveAll_sections commands start s.arrived noNul
  obtain rfl := Option.some.inj (run'.symm.trans shell)
  exact follows.results

/-- Two bytes, each as soon as the pace allows, and ten statements. -/
def pacedBytes : List Event :=
  [.arrive 'o', .irq2] ++ List.replicate 7 .statement ++ [.arrive 'k', .irq2] ++ List.replicate 10 .statement

theorem console_executes_pacedBytes :
    ∃ s, (console []).exec Paced (entered resetDriver.uartBoot unbooted) pacedBytes = some s ∧
      receiveAll [] (shellBoot unbooted) ['o', 'k'] = some s.shell := by
  obtain ⟨s, exec, arrived, noEvent, quiet⟩ : ∃ s, (console []).exec Paced (entered resetDriver.uartBoot unbooted)
      pacedBytes = some s ∧ s.arrived = ['o', 'k'] ∧ s.driver.uarte.eventsEndrx = 0 ∧ 10 ≤ s.quiet :=
    ⟨_, rfl, rfl, rfl, by decide⟩
  obtain ⟨-, -, rested⟩ := console_executes [] resetDriver rfl unbooted (Machine.exec_run exec)
  obtain ⟨-, shell, -⟩ := rested noEvent quiet
  exact ⟨s, exec, arrived ▸ shell⟩

end Maskset.Console
