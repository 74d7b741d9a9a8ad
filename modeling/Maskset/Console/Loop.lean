import Maskset.Uart.Counters
import Maskset.Uart.Fifo
import Maskset.Uart.Uarte
import Maskset.Shell.Invariant
import Maskset.Shell.Overlong

/-!
# The console

`shell_processing_loop` between the receive interrupt and the shell: a byte comes off the
line into `s_rx_recv_buf`, `Irq2_Handler` passes it to the callback, `shell_port_getchar`
takes it out of the buffer and `shell_receive_char` gets it. The handler runs between any
two statements of the loop while interrupts are enabled. `shell_receive_char` does not
touch the buffer, so its call is one statement. Beside the source's variables the state
keeps what a tester sees of the bytes on their way.
-/

namespace Maskset.Console
set_option autoImplicit false

open Maskset.Logic Maskset.Uart Maskset.Shell

/-- The next statement of `shell_processing_loop`, with its local `c` once a call has filled it. -/
inductive Loop where
  | boot
  | getchar
  | receive (c : Char)
deriving DecidableEq

/-- The statement of the loop behind a statement of `shell_port_getchar`. -/
def Loop.behind : Pc → Loop
  | .ret c => .receive c
  | _ => .getchar

/-- The character that a call has returned and the shell has not yet got. -/
def Loop.inHand : Loop → List Char
  | .receive c => [c]
  | .boot => []
  | .getchar => []

structure State where
  driver : Driver
  port : Port := {}
  loop : Loop := .boot
  shell : ShellContext
  /-- The bytes that came off the line. -/
  arrived : List Char := []
  /-- The arguments of the callback. -/
  delivered : List Char := []
  /-- The arguments of `shell_receive_char`. -/
  processed : List Char := []
  /-- The statements of the loop since the last callback; the first byte need not wait. -/
  quiet : Nat := 7

inductive Event where
  | arrive (c : Char)
  | irq2
  | statement
deriving DecidableEq

/-- The statement of the loop that is next. -/
def statement (commands : List Command) (s : State) : Option State :=
  match s.loop with
  | .boot => some { s with shell := shellBoot s.shell, loop := .getchar, quiet := s.quiet + 1 }
  | .getchar => do
    let port ← shellPortGetcharStep s.port
    pure { s with port, loop := .behind s.port.pc, quiet := s.quiet + 1 }
  | .receive c => do
    let shell ← shellReceiveChar commands s.shell c
    pure { s with shell, loop := .getchar, processed := s.processed ++ [c], quiet := s.quiet + 1 }

/-- The callback that the handler calls, with its argument recorded. -/
def callback (c : Char) (at' : Port × List Char) : Option (Port × List Char) :=
  (Uart.port at'.1 (.isr c)).map (·, at'.2 ++ [c])

def console (commands : List Command) : Machine State Event
  | s, .arrive c => do
    let driver ← s.driver.arrive c
    pure { s with driver, arrived := s.arrived ++ [c] }
  | s, .irq2 =>
    if s.port.irqEnabled ∧ s.driver.irqEnabled 2 then do
      let ((port, delivered), driver) ← s.driver.irq2Handler callback (s.port, s.delivered)
      pure { s with port, delivered, driver, quiet := if s.driver.uarte.eventsEndrx ≠ 0 then 0 else s.quiet }
    else none
  | s, .statement => statement commands s

/-- The loop is entered with the driver and the shell as `main` leaves them. -/
def entered (driver : Driver) (shell : ShellContext) : State := { driver, shell }

/-! ## What holds in every interleaving -/

/-- From the boot on the shell is where the characters that it got take it. -/
structure Follows (commands : List Command) (start : ShellContext) (s : State) : Prop where
  unbooted : s.loop = .boot → s.shell = start ∧ s.processed = []
  booted : s.loop ≠ .boot → receiveAll commands (shellBoot start) s.processed = some s.shell

/-- What holds between any two events. -/
structure Sound (commands : List Command) (start : ShellContext) (s : State) : Prop where
  configured : Configured s.driver
  counted : Counted s.port
  /-- Every byte is handed to the callback, once and in order. -/
  line : ∃ pending, Pending s.driver pending ∧ s.arrived = s.delivered ++ pending.toList
  /-- The callback drops bytes, but neither adds nor reorders any. -/
  accepted : s.port.accepted.Sublist s.delivered
  /-- Every character a call returns goes to the shell, once and in order. -/
  returned : s.port.returned = s.processed ++ s.loop.inHand
  atCheck : s.loop ≠ .getchar → s.port.pc = .check
  follows : Follows commands start s

/-- What a statement of the loop leaves alone. -/
structure Frame (s t : State) : Prop where
  driver : t.driver = s.driver
  arrived : t.arrived = s.arrived
  delivered : t.delivered = s.delivered
  accepted : t.port.accepted = s.port.accepted
  quiet : t.quiet = s.quiet + 1
  call : t.port = s.port ∨ port s.port .main = some t.port

section Steps

variable {commands : List Command} {start : ShellContext} {s t : State} {c : Char}

theorem receiveAll_snoc {shell shell' : ShellContext} {stream : List Char}
    (before : receiveAll commands shell stream = some shell') :
    receiveAll commands shell (stream ++ [c]) = shellReceiveChar commands shell' c := by
  rw [receiveAll] at before ⊢
  rw [List.foldlM_append, before]
  exact bind_pure (shellReceiveChar commands shell' c)

/-- The shell takes every stream. -/
theorem receiveAll_kept (commands : List Command) (start : ShellContext) (stream : List Char) :
    ∃ shell, receiveAll commands (shellBoot start) stream = some shell ∧ Kept shell := by
  have begun : Kept (shellBoot start) := ⟨[], editing_empty (holds_boot start).1⟩
  have steps : ∀ shell c, Kept shell → ∃ shell', shellReceiveChar commands shell c = some shell' ∧ Kept shell' := by
    rintro shell c ⟨line, editing⟩
    obtain ⟨shell', line', step, editing', -⟩ := editing.receive commands c
    exact ⟨shell', step, line', editing'⟩
  exact Machine.always begun steps stream

theorem Follows.kept (follows : Follows commands start s) (booted : s.loop ≠ .boot) : Kept s.shell := by
  obtain ⟨shell, run, kept⟩ := receiveAll_kept commands start s.processed
  obtain rfl := Option.some.inj (run.symm.trans (follows.booted booted))
  exact kept

theorem Loop.behind_ne_boot (pc : Pc) : Loop.behind pc ≠ .boot := by cases pc <;> exact Loop.noConfusion

/-- What a statement of `shell_port_getchar` does to the results. -/
theorem getchar_effect {p q : Port} (step : shellPortGetcharStep p = some q) :
    q.accepted = p.accepted ∧ q.returned = p.returned ++ (Loop.behind p.pc).inHand ∧
      (Loop.behind p.pc ≠ .getchar → q.pc = .check) := by
  obtain ⟨buffer, irq, pc, accepted, removed, calls⟩ := p
  have returned_none : (calls ++ [none]).reduceOption = calls.reduceOption ++ [] := by
    simp [List.reduceOption_append]
  have returned_some (c : Char) : (calls ++ [some c]).reduceOption = calls.reduceOption ++ [c] := by
    simp [List.reduceOption_append]
  have same : calls.reduceOption = calls.reduceOption ++ [] := (List.append_nil _).symm
  have inCall : Loop.getchar ≠ .getchar → ∀ {pc : Pc}, pc = .check := fun ne => (ne rfl).elim
  cases pc with
  | check =>
    rw [shellPortGetcharStep] at step
    dsimp only at step
    split at step
    · obtain rfl := Option.some.inj step
      exact ⟨rfl, returned_none, fun ne => inCall ne⟩
    · obtain rfl := Option.some.inj step
      exact ⟨rfl, same, fun ne => inCall ne⟩
  | read =>
    obtain ⟨c, -, rest⟩ := Option.bind_eq_some_iff.1 step
    obtain rfl := Option.some.inj rest
    exact ⟨rfl, same, fun ne => inCall ne⟩
  | ret c =>
    obtain rfl := Option.some.inj step
    exact ⟨rfl, returned_some c, fun _ => rfl⟩
  | disableIrq c =>
    obtain rfl := Option.some.inj step
    exact ⟨rfl, same, fun ne => inCall ne⟩
  | advance c =>
    obtain rfl := Option.some.inj step
    exact ⟨rfl, same, fun ne => inCall ne⟩
  | decrement c =>
    obtain rfl := Option.some.inj step
    exact ⟨rfl, same, fun ne => inCall ne⟩
  | enableIrq c =>
    obtain rfl := Option.some.inj step
    exact ⟨rfl, same, fun ne => inCall ne⟩

/-- What the callback does to the results. -/
theorem isr_effect {p q : Port} (isr : port p (.isr c) = some q) :
    q.pc = p.pc ∧ q.returned = p.returned ∧ (q.accepted = p.accepted ∨ q.accepted = p.accepted ++ [c]) := by
  rw [port] at isr
  split at isr
  case isFalse => cases isr
  obtain ⟨buffer, -, rest⟩ := Option.bind_eq_some_iff.1 isr
  obtain rfl := Option.some.inj rest
  refine ⟨rfl, rfl, ?_⟩
  dsimp only
  split
  · exact .inr rfl
  · exact .inl rfl

/-- A byte from the line waits for its interrupt. -/
theorem Sound.arrive (sound : Sound commands start s) (step : console commands s (.arrive c) = some t) :
    Sound commands start t ∧ t.driver.uarte.eventsEndrx ≠ 0 ∧ t.arrived = s.arrived ++ [c] ∧
      ∃ driver arrived, t = { s with driver, arrived } := by
  obtain ⟨driver, arrives, rest⟩ := Option.bind_eq_some_iff.1 step
  obtain rfl := Option.some.inj rest
  obtain ⟨pending, waits, line⟩ := sound.line
  cases pending with
  | some c' =>
    rw [arrive_pending waits] at arrives
    cases arrives
  | none =>
    obtain ⟨driver', arrives', configured, waits'⟩ := arrive_cases sound.configured waits c
    obtain rfl := Option.some.inj (arrives'.symm.trans arrives)
    have event : driver'.uarte.eventsEndrx ≠ 0 := by
      cases waits' with
      | received event => exact event
    refine ⟨⟨configured, sound.counted, ⟨some c, waits', ?_⟩, sound.accepted, sound.returned, sound.atCheck,
      ⟨sound.follows.unbooted, sound.follows.booted⟩⟩, event, rfl, driver', s.arrived ++ [c], rfl⟩
    rw [line, Option.toList_none, List.append_nil]
    rfl

/-- What the handler does: nothing, or it passes on the byte that waits. -/
theorem Sound.irq2_cases (sound : Sound commands start s) (step : console commands s .irq2 = some t) :
    s.port.irqEnabled = true ∧ (t = s ∨ ∃ c port driver, Uart.port s.port (.isr c) = some port ∧
      s.arrived = s.delivered ++ [c] ∧ s.driver.uarte.eventsEndrx ≠ 0 ∧ Configured driver ∧ Pending driver none ∧
      t = { s with port, driver, delivered := s.delivered ++ [c], quiet := 0 }) := by
  rw [console] at step
  split at step
  case isFalse => cases step
  rename_i enabled
  refine ⟨enabled.1, ?_⟩
  obtain ⟨pending, waits, line⟩ := sound.line
  obtain ⟨⟨⟨port, delivered⟩, driver⟩, handled, rest⟩ := Option.bind_eq_some_iff.1 step
  obtain rfl := Option.some.inj rest
  cases pending with
  | none =>
    rw [irq2Handler_listening waits] at handled
    obtain ⟨⟨rfl, rfl⟩, rfl⟩ := Prod.mk.inj (Option.some.inj handled) |>.imp_left Prod.mk.inj
    cases waits with
    | listening noEvent =>
      left
      simp only [noEvent, ne_eq, not_true_eq_false, if_false]
  | some c =>
    right
    obtain ⟨driver', handler, configured, waits'⟩ :=
      @irq2Handler_received s.driver c _ callback (s.port, s.delivered) sound.configured waits
    rw [handler] at handled
    obtain ⟨⟨port', delivered'⟩, called, same⟩ := Option.map_eq_some_iff.1 handled
    obtain ⟨⟨rfl, rfl⟩, rfl⟩ := Prod.mk.inj same |>.imp_left Prod.mk.inj
    obtain ⟨port'', isr, recorded⟩ := Option.map_eq_some_iff.1 called
    obtain ⟨rfl, rfl⟩ := Prod.mk.inj recorded
    cases waits with
    | received event =>
      refine ⟨c, port'', driver', isr, line, event, configured, waits', ?_⟩
      simp only [event, ne_eq, not_false_eq_true, if_true]

/-- While interrupts are enabled the handler goes through. -/
theorem Sound.irq2_isSome (sound : Sound commands start s) (enabled : s.port.irqEnabled = true) :
    (console commands s .irq2).isSome := by
  obtain ⟨pending, waits, -⟩ := sound.line
  rw [console, if_pos ⟨enabled, sound.configured.passes⟩]
  cases pending with
  | none =>
    rw [irq2Handler_listening waits]
    rfl
  | some c =>
    obtain ⟨driver, handler, -⟩ :=
      @irq2Handler_received s.driver c _ callback (s.port, s.delivered) sound.configured waits
    obtain ⟨port, isr⟩ := Option.isSome_iff_exists.1 (sound.counted.isr_isSome enabled c)
    rw [handler, callback, isr]
    rfl

theorem Sound.irq2 (sound : Sound commands start s) (step : console commands s .irq2 = some t) :
    Sound commands start t := by
  obtain ⟨-, rfl | ⟨c, port, driver, isr, line, event, configured, waits, rfl⟩⟩ := sound.irq2_cases step
  · exact sound
  · obtain ⟨pc, returned, accepted⟩ := isr_effect isr
    refine ⟨configured, sound.counted.isr isr, ⟨none, waits, ?_⟩, ?_, ?_, ?_,
      ⟨sound.follows.unbooted, sound.follows.booted⟩⟩
    · exact line.trans (List.append_nil _).symm
    · rcases accepted with dropped | appended
      · exact dropped ▸ sound.accepted.trans (List.sublist_append_left _ _)
      · exact appended ▸ sound.accepted.append_right [c]
    · exact returned.trans sound.returned
    · exact fun other => pc.trans (sound.atCheck other)

/-- Every statement of the loop goes through. -/
theorem Sound.statement (sound : Sound commands start s) :
    ∃ t, Console.statement commands s = some t ∧ Sound commands start t ∧ Frame s t := by
  obtain ⟨configured, counted, line, accepted, returned, atCheck, follows⟩ := sound
  rw [Console.statement]
  cases next : s.loop with
  | boot =>
    obtain ⟨unbooted, fresh⟩ := follows.unbooted next
    rw [next] at returned
    have run : receiveAll commands (shellBoot start) s.processed = some (shellBoot s.shell) := by
      rw [unbooted, fresh]
      rfl
    exact ⟨_, rfl, ⟨configured, counted, line, accepted, returned, fun other => (other rfl).elim,
      ⟨Loop.noConfusion, fun _ => run⟩⟩, ⟨rfl, rfl, rfl, rfl, rfl, .inl rfl⟩⟩
  | getchar =>
    obtain ⟨port', step⟩ := Option.isSome_iff_exists.1 counted.main_isSome
    obtain ⟨same, returns, ret⟩ := getchar_effect step
    have running : s.loop ≠ .boot := by simp [next]
    rw [next, Loop.inHand, List.append_nil] at returned
    refine ⟨_, congrArg (Option.bind · _) step, ⟨configured, counted.main step, line, ?_, ?_, ret, ?_⟩,
      ⟨rfl, rfl, rfl, same, rfl, .inr step⟩⟩
    · exact same ▸ accepted
    · exact returns.trans (congrArg (· ++ _) returned)
    · exact ⟨fun boot => (Loop.behind_ne_boot _ boot).elim, fun _ => follows.booted running⟩
  | receive c =>
    have running : s.loop ≠ .boot := by simp [next]
    obtain ⟨line', editing⟩ := follows.kept running
    obtain ⟨shell', line'', step, -⟩ := editing.receive commands c
    rw [next, Loop.inHand] at returned
    have run := (receiveAll_snoc (follows.booted running)).trans step
    refine ⟨_, congrArg (Option.bind · _) step, ⟨configured, counted, line, accepted, ?_, ?_, ?_⟩,
      ⟨rfl, rfl, rfl, rfl, rfl, .inl rfl⟩⟩
    · exact returned.trans (List.append_nil _).symm
    · exact fun ne => (ne rfl).elim
    · exact ⟨Loop.noConfusion, fun _ => run⟩

/-- The state in which the loop is entered. -/
theorem sound_entered (driver : Driver) (noEvent : driver.uarte.eventsEndrx = 0) :
    Sound commands start (entered driver.uartBoot start) where
  configured := uartBoot_configured driver
  counted := counted_init
  line := ⟨none, uartBoot_pending noEvent, rfl⟩
  accepted := .slnil
  returned := rfl
  atCheck := fun _ => rfl
  follows := ⟨fun _ => ⟨rfl, rfl⟩, fun booted => (booted rfl).elim⟩

/-- The line is held back exactly while a byte waits for its interrupt. -/
theorem arrive_isSome_iff {pending : Option Char} (configured : Configured s.driver)
    (waits : Pending s.driver pending) :
    (console commands s (.arrive c)).isSome ↔ pending = none := by
  cases pending with
  | none =>
    obtain ⟨driver, arrives, -⟩ := arrive_cases configured waits c
    rw [console, arrives]
    exact iff_of_true rfl rfl
  | some c' =>
    rw [console, arrive_pending waits]
    exact iff_of_false Bool.noConfusion (Option.some_ne_none c')

theorem Sound.step (sound : Sound commands start s) {e : Event} (step : console commands s e = some t) :
    Sound commands start t := by
  cases e with
  | arrive c => exact (sound.arrive step).1
  | irq2 => exact sound.irq2 step
  | statement =>
    obtain ⟨u, goes, sound', -⟩ := sound.statement
    obtain rfl := Option.some.inj (goes.symm.trans step)
    exact sound'

end Steps

/-- **The console is safe in every interleaving** of the line, the handler and the loop, whatever the
commands: no statement and no interrupt ever faults, a byte is handed to the callback once and in
order, a character that a call returns goes to the shell once and in order, and the shell is where
these characters take it from its boot. -/
theorem console_safe (commands : List Command) (driver : Driver) (noEvent : driver.uarte.eventsEndrx = 0)
    (start : ShellContext) {es : List Event} {s : State}
    (run : (console commands).Run (fun _ _ => True) (entered driver.uartBoot start) es s) :
    (console commands s .statement).isSome ∧ (s.port.irqEnabled = true → (console commands s .irq2).isSome) ∧
      (∃ pending, Pending s.driver pending ∧ s.arrived = s.delivered ++ pending.toList ∧
        ∀ c, (console commands s (.arrive c)).isSome ↔ pending = none) ∧
      s.port.accepted.Sublist s.delivered ∧ s.port.returned = s.processed ++ s.loop.inHand ∧
      (s.loop ≠ .boot → receiveAll commands (shellBoot start) s.processed = some s.shell ∧ Between s.shell) := by
  have sound : Sound commands start s :=
    run.invariant (sound_entered driver noEvent) fun _ _ _ sound _ step => sound.step step
  obtain ⟨t, goes, -⟩ := sound.statement
  obtain ⟨pending, waits, line⟩ := sound.line
  refine ⟨?_, ?_, ⟨pending, waits, line, ?_⟩, sound.accepted, sound.returned, ?_⟩
  · rw [console, goes]
    rfl
  · exact sound.irq2_isSome
  · exact fun c => arrive_isSome_iff sound.configured waits
  · intro booted
    obtain ⟨line', editing⟩ := sound.follows.kept booted
    exact ⟨sound.follows.booted booted, editing.between⟩

/-- The peripheral out of reset. -/
def resetDriver : Driver :=
  ⟨⟨⟨0, 0, 0, 0⟩, 0, 0, 0, 0, 0, 0, false, 0⟩, ⟨fun _ => 0, 0⟩, .replicate 4 '\x00'⟩

/-- Two bytes that are delivered before the shell has booted. -/
def early : List Event := [.arrive 'a', .irq2, .arrive 'b', .irq2]

theorem console_safe_early :
    ∃ s, (console []).exec (fun _ _ => True) (entered resetDriver.uartBoot unbooted) early = some s ∧
      s.delivered = ['a', 'b'] ∧ s.port.accepted.Sublist s.delivered ∧ (console [] s .statement).isSome := by
  obtain ⟨s, exec⟩ : ∃ s, (console []).exec (fun _ _ => True) (entered resetDriver.uartBoot unbooted) early = some s ∧
      s.delivered = ['a', 'b'] := ⟨_, rfl, rfl⟩
  obtain ⟨goes, -, -, accepted, -⟩ := console_safe [] resetDriver rfl unbooted (Machine.exec_run exec.1)
  exact ⟨s, exec.1, exec.2, accepted, goes⟩

end Maskset.Console
