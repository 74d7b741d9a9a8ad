import Maskset.Boot.Application
import Maskset.Console.Paced

/-!
# From the line to the flash

The application behind its console: bytes come off the line, the receive interrupt runs between
any two statements of the loop, and the statement that hands a character to the shell runs the
command of the line that it ends. `device_executes` follows a command all the way.
-/

namespace Maskset.Boot
set_option autoImplicit false

open Maskset.Logic Maskset.Flash
open Maskset.Shell (ShellContext Command shellReceiveChar sections strings FollowsStrings)

/-- The console with the UART, and the board otherwise. -/
structure Running where
  console : Console.State
  app : App

/-- In reset nothing happens any more. -/
def device (lib : Bootutil) (idn : String) : Machine Running Console.Event := fun r e =>
  if r.app.rebooted then some r
  else do
    let console ← Console.console shellCommands r.console e
    let events := console.shell.results.drop r.console.shell.results.length
    pure ⟨console, r.app.performAll lib idn (events.filterMap ran)⟩

/-- `main` at the call of `shell_processing_loop`. -/
def powered (lib : Bootutil) (idn : String) (b : Board) (start : ShellContext) : Running :=
  ⟨Console.entered b.driver.uartBoot start, started lib idn b⟩

/-- The pace of the console. -/
def Paced (r : Running) (e : Console.Event) : Prop := Console.Paced r.console e

instance (r : Running) (e : Console.Event) : Decidable (Paced r e) := inferInstanceAs (Decidable (Console.Paced _ _))

section Console

variable {commands : List Command} {start : ShellContext} {s t : Console.State} {e : Console.Event}

/-- The shell of a sound console has the lines of what it has got. -/
theorem follows_of_sound (sound : Console.Sound commands start s) (booted : s.loop ≠ .boot) :
    FollowsStrings commands start s.processed s.shell := by
  obtain ⟨shell, run, follows⟩ := Shell.receiveAll_strings commands start s.processed
  obtain rfl := Option.some.inj (run.symm.trans (sound.follows.booted booted))
  exact follows

/-- An event leaves what the shell has recorded alone, or the shell gets a character. -/
theorem console_shell (sound : Console.Sound commands start s) (step : Console.console commands s e = some t) :
    t.processed = s.processed ∧ t.shell.results = s.shell.results ∨
      ∃ c, s.loop ≠ .boot ∧ t.processed = s.processed ++ [c] ∧ shellReceiveChar commands s.shell c = some t.shell := by
  cases e with
  | arrive c =>
    obtain ⟨-, -, -, driver, arrived, rfl⟩ := sound.arrive step
    exact .inl ⟨rfl, rfl⟩
  | irq2 =>
    obtain ⟨-, rfl | ⟨c, port, driver, -, -, -, -, -, rfl⟩⟩ := sound.irq2_cases step
    · exact .inl ⟨rfl, rfl⟩
    · exact .inl ⟨rfl, rfl⟩
  | statement =>
    rw [Console.console, Console.statement] at step
    cases next : s.loop with
    | boot =>
      rw [next] at step
      obtain rfl := Option.some.inj step
      obtain ⟨-, results, -⟩ := Shell.holds_boot s.shell
      exact .inl ⟨rfl, results⟩
    | getchar =>
      rw [next] at step
      obtain ⟨port, -, rest⟩ := Option.bind_eq_some_iff.1 step
      obtain rfl := Option.some.inj rest
      exact .inl ⟨rfl, rfl⟩
    | receive c =>
      rw [next] at step
      obtain ⟨shell, received, rest⟩ := Option.bind_eq_some_iff.1 step
      obtain rfl := Option.some.inj rest
      exact .inr ⟨c, Console.Loop.noConfusion, rfl, received⟩

end Console

/-- What holds between any two events: the board is what the lines make of it that the shell has got. -/
structure Executes (lib : Bootutil) (idn : String) (b : Board) (start : ShellContext) (r : Running) : Prop where
  sound : Console.Sound shellCommands start r.console
  app : r.app = (started lib idn b).performAll lib idn (commandsOf r.console.processed)

section Run

variable {lib : Bootutil} {idn : String} {b : Board} {start : ShellContext} {r u : Running} {e : Console.Event}

theorem Executes.step (executes : Executes lib idn b start r) (step : device lib idn r e = some u) :
    Executes lib idn b start u := by
  obtain ⟨sound, app⟩ := executes
  rw [device] at step
  split at step
  · obtain rfl := Option.some.inj step
    exact ⟨sound, app⟩
  obtain ⟨console, goes, rest⟩ := Option.bind_eq_some_iff.1 step
  obtain rfl := Option.some.inj rest
  refine ⟨sound.step goes, ?_⟩
  dsimp only
  obtain ⟨processed, results⟩ | ⟨c, booted, processed, received⟩ := console_shell sound goes
  · rw [results, List.drop_length, processed]
    exact app
  · obtain ⟨shell, more, received', -, grown, results⟩ := (follows_of_sound sound booted).receive c
    obtain rfl := Option.some.inj (received'.symm.trans received)
    rw [results, List.drop_left, ran_lines, processed, commandsOf_snoc grown, performAll_append, ← app]

/-- The loop goes on. -/
theorem Executes.statement (executes : Executes lib idn b start r) : (device lib idn r .statement).isSome := by
  obtain ⟨t, goes, -⟩ := executes.sound.statement
  have step : Console.console shellCommands r.console .statement = some t := goes
  rw [device]
  split
  · rfl
  · rw [step]
    rfl

/-- The console of a device that goes at a pace keeps what arrives. -/
theorem keeping_step (keeping : Console.Keeping shellCommands start r.console) (paced : Paced r e)
    (step : device lib idn r e = some u) : Console.Keeping shellCommands start u.console := by
  rw [device] at step
  split at step
  · obtain rfl := Option.some.inj step
    exact keeping
  obtain ⟨console, goes, rest⟩ := Option.bind_eq_some_iff.1 step
  obtain rfl := Option.some.inj rest
  exact keeping.step paced goes

end Run

/-- **A command goes all the way** from the line to the flash, for every library that uses the slots only, by
calls in range, and in every interleaving: no statement of the loop faults, the board is what the commands of
the characters that the shell has got make of it, each run once and in order up to a reset, and the bootloader
is as it was. If the loop runs at least seven statements between two callbacks, these characters are the first
that came off the line, and ten statements after the last byte they are all of them. -/
theorem device_executes (lib : Bootutil) (idn : String) (b : Board) (noEvent : b.driver.uarte.eventsEndrx = 0)
    (start : ShellContext) {es : List Console.Event} {r : Running}
    (run : (device lib idn).Run (fun _ _ => True) (powered lib idn b start) es r) :
    (device lib idn r .statement).isSome ∧
      r.app = (started lib idn b).performAll lib idn (commandsOf r.console.processed) ∧
      contents r.app.board.device bootloaderArea = contents b.device bootloaderArea ∧
      ((device lib idn).Run Paced (powered lib idn b start) es r → r.console.processed <+: r.console.arrived ∧
        (r.console.driver.uarte.eventsEndrx = 0 → 10 ≤ r.console.quiet → r.console.processed = r.console.arrived)) := by
  have sound : Console.Sound shellCommands start (powered lib idn b start).console :=
    Console.sound_entered b.driver noEvent
  have executes : Executes lib idn b start r :=
    run.invariant ⟨sound, rfl⟩ fun _ _ _ executes _ step => executes.step step
  refine ⟨executes.statement, executes.app, ?_, ?_⟩
  · rw [executes.app]
    exact (onSlots_performAll (onSlots_started lib idn b) _).kept
  · intro paced
    have keeping : Console.Keeping shellCommands start r.console :=
      paced.invariant (Console.keeping_entered b.driver noEvent) fun _ _ _ keeping paced step =>
        keeping_step keeping paced step
    exact ⟨keeping.processed, fun quiet rest => (keeping.rested quiet rest).2⟩

/-- Characters with the statements that each of them needs. -/
def typed (text : List Char) : List Console.Event :=
  text.flatMap fun c => [.arrive c, .irq2] ++ List.replicate 10 .statement

/-- The application on erased flash, at its loop. -/
def fresh : Running := powered erasedTrailers "Maskset" ⟨blank, Console.resetDriver, 0, 0⟩ Shell.unbooted

theorem device_executes_reboot :
    ∃ r, (device erasedTrailers "Maskset").exec Paced fresh (typed "reboot\n".toList) = some r ∧
      r.app.rebooted = true ∧ contents r.app.board.device bootloaderArea = contents blank bootloaderArea := by
  have got : ((device erasedTrailers "Maskset").exec Paced fresh (typed "reboot\n".toList)).map
      (fun r => r.console.processed) = some "reboot\n".toList := by decide +kernel
  obtain ⟨r, exec, processed⟩ := Option.map_eq_some_iff.1 got
  have run := (Machine.exec_run exec).mono fun _ _ _ => trivial
  obtain ⟨-, app, kept, -⟩ :=
    device_executes erasedTrailers "Maskset" ⟨blank, Console.resetDriver, 0, 0⟩ rfl Shell.unbooted run
  refine ⟨r, exec, ?_, kept⟩
  rw [app, processed]
  decide +kernel

end Maskset.Boot
