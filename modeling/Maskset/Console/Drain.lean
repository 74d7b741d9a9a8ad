import Maskset.Console.Loop

/-!
# Does the loop catch up?

`due` counts the statements until the buffer is empty and the shell has got everything.
Without an interrupt every statement lowers it by one, so in every interleaving the loop
catches up as soon as it is left alone: `shell_receive_char` has then been called once for
each byte that was accepted.
-/

namespace Maskset.Console
set_option autoImplicit false

open Maskset.Logic Maskset.Uart Maskset.Shell

/-- The statements of one round: the check, five more of the call, its return and `shell_receive_char`. -/
def round : Nat := 8

/-- The statements until the calls have emptied the buffer. -/
def callDue (p : Port) : Nat :=
  match p.pc with
  | .check => round * p.buffer.numBytes
  | .read => round * p.buffer.numBytes - 1
  | .disableIrq _ => round * p.buffer.numBytes - 2
  | .advance _ => round * p.buffer.numBytes - 3
  | .decrement _ => round * p.buffer.numBytes - 4
  | .enableIrq _ => round * p.buffer.numBytes + 3
  | .ret _ => round * p.buffer.numBytes + 2

/-- The statement outside of the calls that comes first. -/
def Loop.due : Loop → Nat
  | .boot => 1
  | .receive _ => 1
  | .getchar => 0

/-- The statements until the loop has caught up. -/
def due (s : State) : Nat := callDue s.port + s.loop.due

/-- A byte that is removed is returned two statements later. -/
def inFlight : Pc → Nat
  | .enableIrq _ | .ret _ => 1
  | .check | .read | .disableIrq _ | .advance _ | .decrement _ => 0

/-- Every byte that is removed is returned, and outside of its window a call can be interrupted. -/
structure Returning (p : Port) : Prop where
  count : p.removed = p.returned.length + inFlight p.pc
  unmasked : ¬ p.pc.Masked → p.irqEnabled = true

/-- What holds between any two events, with the count of the bytes that are returned. -/
structure Accounted (commands : List Command) (start : ShellContext) (s : State) : Prop where
  sound : Sound commands start s
  returning : Returning s.port

/-- The loop has caught up. -/
structure Idle (s : State) : Prop where
  loop : s.loop = .getchar
  pc : s.port.pc = .check
  empty : s.port.buffer.numBytes = 0

section Calls

variable {p q : Port} {c : Char}

theorem returning_init : Returning {} := ⟨rfl, fun _ => rfl⟩

theorem Returning.isr (returning : Returning p) (isr : port p (.isr c) = some q) : Returning q := by
  rw [port] at isr
  split at isr
  case isFalse => cases isr
  obtain ⟨buffer, -, rest⟩ := Option.bind_eq_some_iff.1 isr
  obtain rfl := Option.some.inj rest
  exact ⟨returning.count, returning.unmasked⟩

/-- **One statement of a call** lowers what is due by one. -/
theorem getchar_due (counted : Counted p) (returning : Returning p) (step : shellPortGetcharStep p = some q) :
    Returning q ∧ callDue q + (Loop.behind p.pc).due = callDue p - 1 := by
  obtain ⟨-, returns, -⟩ := getchar_effect step
  obtain ⟨count, unmasked⟩ := returning
  have claimed := counted.claimed
  have length := congrArg List.length returns
  obtain ⟨buffer, irq, pc, accepted, removed, calls⟩ := p
  rw [List.length_append] at length
  cases pc with
  | check =>
    rw [shellPortGetcharStep] at step
    dsimp only at step
    split at step
    · rename_i empty
      obtain rfl := Option.some.inj step
      refine ⟨⟨count.trans length.symm, unmasked⟩, ?_⟩
      simp only [callDue, Loop.behind, Loop.due, empty]
      rfl
    · obtain rfl := Option.some.inj step
      exact ⟨⟨count, unmasked⟩, rfl⟩
  | read =>
    obtain ⟨c, -, rest⟩ := Option.bind_eq_some_iff.1 step
    obtain rfl := Option.some.inj rest
    exact ⟨⟨count, unmasked⟩, rfl⟩
  | disableIrq c =>
    obtain rfl := Option.some.inj step
    exact ⟨⟨count, fun open' => (open' trivial).elim⟩, rfl⟩
  | advance c =>
    obtain rfl := Option.some.inj step
    exact ⟨⟨count, fun open' => (open' trivial).elim⟩, rfl⟩
  | decrement c =>
    have pending : buffer.numBytes ≠ 0 := claimed trivial
    obtain rfl := Option.some.inj step
    refine ⟨⟨congrArg (· + 1) count, fun open' => (open' trivial).elim⟩, ?_⟩
    simp only [callDue, Loop.behind, Loop.due, sizePred_eq pending, round]
    omega
  | enableIrq c =>
    obtain rfl := Option.some.inj step
    exact ⟨⟨count, fun _ => rfl⟩, rfl⟩
  | ret c =>
    obtain rfl := Option.some.inj step
    exact ⟨⟨count.trans length.symm, unmasked⟩, rfl⟩

end Calls

section Steps

variable {commands : List Command} {start : ShellContext} {s t : State}

/-- **One statement of the loop** lowers what is due by one. -/
theorem Accounted.statement (accounted : Accounted commands start s) (step : statement commands s = some t) :
    Returning t.port ∧ due t = due s - 1 := by
  obtain ⟨sound, returning⟩ := accounted
  rw [Console.statement] at step
  cases next : s.loop with
  | boot =>
    rw [next] at step
    obtain rfl := Option.some.inj step
    refine ⟨returning, ?_⟩
    rw [due, due, next]
    rfl
  | getchar =>
    rw [next] at step
    obtain ⟨port, call, rest⟩ := Option.bind_eq_some_iff.1 step
    obtain rfl := Option.some.inj rest
    obtain ⟨returning', lower⟩ := getchar_due sound.counted returning call
    refine ⟨returning', ?_⟩
    rw [due, due, next]
    exact lower
  | receive c =>
    rw [next] at step
    obtain ⟨shell, -, rest⟩ := Option.bind_eq_some_iff.1 step
    obtain rfl := Option.some.inj rest
    refine ⟨returning, ?_⟩
    rw [due, due, next]
    rfl

/-- When nothing is due, the loop has caught up. -/
theorem idle_of_due (sound : Sound commands start s) (nothing : due s = 0) : Idle s := by
  have claimed := sound.counted.claimed
  rw [due, callDue] at nothing
  cases next : s.loop with
  | boot => simp [next, Loop.due] at nothing
  | receive c => simp [next, Loop.due] at nothing
  | getchar =>
    rw [next, Loop.due] at nothing
    cases pc : s.port.pc with
    | check =>
      rw [pc] at nothing
      simp only [round] at nothing
      exact ⟨next, pc, by omega⟩
    | enableIrq c => simp [pc] at nothing
    | ret c => simp [pc] at nothing
    | read =>
      rw [pc] at nothing claimed
      have pending := claimed trivial
      simp only [round] at nothing
      omega
    | disableIrq c =>
      rw [pc] at nothing claimed
      have pending := claimed trivial
      simp only [round] at nothing
      omega
    | advance c =>
      rw [pc] at nothing claimed
      have pending := claimed trivial
      simp only [round] at nothing
      omega
    | decrement c =>
      rw [pc] at nothing claimed
      have pending := claimed trivial
      simp only [round] at nothing
      omega

/-- At most a round for each byte, and what is left of the one that is going on. -/
theorem due_le (sound : Sound commands start s) :
    due s ≤ round * s.port.buffer.numBytes + 2 ∨ s.port.pc.Masked ∧ due s ≤ round * s.port.buffer.numBytes + 3 := by
  have atCheck := sound.atCheck
  rw [due]
  cases next : s.loop with
  | boot =>
    rw [callDue, atCheck (by simp [next])]
    exact .inl (Nat.add_le_add_left (by decide) _)
  | receive c =>
    have one : Loop.due (.receive c) = 1 := rfl
    rw [callDue, atCheck (by simp [next]), one]
    exact .inl (Nat.add_le_add_left (by decide) _)
  | getchar =>
    rw [callDue, Loop.due]
    cases s.port.pc with
    | enableIrq c => exact .inr ⟨trivial, Nat.le_refl _⟩
    | ret c => exact .inl (Nat.le_refl _)
    | check => exact .inl (Nat.le_add_right _ _)
    | read => exact .inl (by dsimp only; omega)
    | disableIrq c => exact .inl (by dsimp only; omega)
    | advance c => exact .inl (by dsimp only; omega)
    | decrement c => exact .inl (by dsimp only; omega)

/-- What holds after `n` statements alone: less is due, and nothing has come in. -/
structure Caught (commands : List Command) (start : ShellContext) (s : State) (n : Nat) (t : State) : Prop where
  accounted : Accounted commands start t
  due : due t = due s - n
  accepted : t.port.accepted = s.port.accepted

theorem Caught.statement {n : Nat} (caught : Caught commands start s n t) :
    ∃ u, console commands t .statement = some u ∧ Caught commands start s (n + 1) u := by
  obtain ⟨accounted, less, accepted⟩ := caught
  obtain ⟨u, goes, sound', frame⟩ := accounted.sound.statement
  obtain ⟨returning', lower⟩ := accounted.statement goes
  refine ⟨u, goes, ⟨sound', returning'⟩, ?_, frame.accepted.trans accepted⟩
  rw [lower, less, Nat.sub_sub]

/-- Statements alone go through. -/
theorem statements_run (accounted : Accounted commands start s) (n : Nat) :
    ∃ t, (List.replicate n .statement).foldlM (console commands) s = some t ∧ Caught commands start s n t := by
  have begun : Caught commands start s 0 s := ⟨accounted, rfl, rfl⟩
  have steps : ∀ (es : List Event) t e, Caught commands start s es.length t → e = Event.statement →
      ∃ u, console commands t e = some u ∧ Caught commands start s (es ++ [e]).length u := by
    rintro es t e caught rfl
    rw [List.length_append, List.length_singleton]
    exact caught.statement
  have run := @Machine.total _ _ (console commands) s (· = Event.statement)
    (fun es t => Caught commands start s es.length t) begun steps (List.replicate n .statement)
    fun e within => List.eq_of_mem_replicate within
  rwa [List.length_replicate] at run

theorem accounted_entered (driver : Driver) (noEvent : driver.uarte.eventsEndrx = 0) :
    Accounted commands start (entered driver.uartBoot start) := ⟨sound_entered driver noEvent, returning_init⟩

theorem Accounted.step (accounted : Accounted commands start s) {e : Event} (step : console commands s e = some t) :
    Accounted commands start t := by
  refine ⟨accounted.sound.step step, ?_⟩
  cases e with
  | arrive c =>
    obtain ⟨-, -, -, driver, arrived, rfl⟩ := accounted.sound.arrive step
    exact accounted.returning
  | irq2 =>
    obtain ⟨-, rfl | ⟨c, port, driver, isr, -, -, -, -, rfl⟩⟩ := accounted.sound.irq2_cases step
    · exact accounted.returning
    · exact accounted.returning.isr isr
  | statement => exact (accounted.statement step).1

end Steps

/-- **The loop catches up in every interleaving**: left alone for eight statements a pending byte, and
three more, it is back at its check with interrupts enabled and nothing pending, and
`shell_receive_char` has been called once for each accepted byte. -/
theorem console_drains (commands : List Command) (driver : Driver) (noEvent : driver.uarte.eventsEndrx = 0)
    (start : ShellContext) {es : List Event} {s : State}
    (run : (console commands).Run (fun _ _ => True) (entered driver.uartBoot start) es s) {n : Nat}
    (enough : round * s.port.buffer.numBytes + 3 ≤ n) :
    ∃ t, (List.replicate n .statement).foldlM (console commands) s = some t ∧ Idle t ∧ t.port.irqEnabled = true ∧
      t.processed.length = s.port.accepted.length ∧
      receiveAll commands (shellBoot start) t.processed = some t.shell := by
  have accounted : Accounted commands start s :=
    run.invariant (accounted_entered driver noEvent) fun _ _ _ accounted _ step => accounted.step step
  obtain ⟨t, alone, ⟨sound', returning'⟩, less, accepted⟩ := statements_run accounted n
  have nothing : due t = 0 := by
    rcases due_le accounted.sound with bound | ⟨-, bound⟩ <;> omega
  obtain ⟨loop, pc, empty⟩ := idle_of_due sound' nothing
  refine ⟨t, alone, ⟨loop, pc, empty⟩, returning'.unmasked (by simp [pc, Pc.Masked]), ?_, ?_⟩
  · have balance := sound'.counted.balance
    have count := returning'.count
    have returned := sound'.returned
    rw [loop, Loop.inHand, List.append_nil] at returned
    rw [pc, inFlight, returned] at count
    rw [empty, count, accepted] at balance
    exact (Nat.zero_add _).symm.trans balance
  · exact sound'.follows.booted (by simp [loop])

/-- Two bytes in the buffer, the second in the place of the first: the shell is called twice. -/
theorem console_drains_early :
    ∃ s t, (console []).exec (fun _ _ => True) (entered resetDriver.uartBoot unbooted) early = some s ∧
      (List.replicate 19 .statement).foldlM (console []) s = some t ∧ Idle t ∧ t.processed.length = 2 := by
  obtain ⟨s, exec, count, two⟩ : ∃ s,
      (console []).exec (fun _ _ => True) (entered resetDriver.uartBoot unbooted) early =
      some s ∧ round * s.port.buffer.numBytes + 3 ≤ 19 ∧ s.port.accepted = ['a', 'b'] := ⟨_, rfl, by decide, rfl⟩
  obtain ⟨t, alone, idle, -, length, -⟩ := console_drains [] resetDriver rfl unbooted (Machine.exec_run exec) count
  exact ⟨s, t, exec, alone, idle, length.trans (congrArg List.length two)⟩

end Maskset.Console
