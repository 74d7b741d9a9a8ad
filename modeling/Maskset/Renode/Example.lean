import Mathlib.Algebra.Group.Nat.Defs
import Maskset.Logic.Lines
import Maskset.Logic.Machine
import Maskset.Logic.Service

/-!
# The button example

`renode-example.c`: the main loop samples a button and prints, the C library hands what was
printed to `_write` whenever it likes, and `_write` sends it over USART2.
-/

namespace Maskset.Renode
set_option autoImplicit false

open Maskset.Logic

def stdoutFileno : Int := 1
def stderrFileno : Int := 2
def eio : Int := 5

/-- What was sent over USART2, and `errno`. -/
structure Port where
  usart2 : List Char
  errno : Int

def Port.usartSendBlocking (p : Port) (data : Char) : Port := { p with usart2 := p.usart2 ++ [data] }

/-- The `n` iterations of the loop of `_write` from `i` on, `none` for an access outside of the text. -/
def writeLoop (ptr : List Char) : (n i : Nat) → Port → Option Port
  | 0, _, p => some p
  | n + 1, i, p => do
    let c ← ptr[i]?
    let p := if c = '\n' then p.usartSendBlocking '\r' else p
    writeLoop ptr n (i + 1) (p.usartSendBlocking c)

def write (file : Int) (ptr : List Char) (len : Int) (p : Port) : Option (Int × Port) :=
  if file = stdoutFileno ∨ file = stderrFileno then do
    let p ← writeLoop ptr len.toNat 0 p
    some (len.toNat, p)
  else some (-1, { p with errno := eio })

/-! ## What is written -/

section Write

variable {ptr : List Char} {n i : Nat} {file len : Int} {p : Port}

theorem writeLoop_eq (inText : i + n ≤ ptr.length) :
    writeLoop ptr n i p = some { p with usart2 := p.usart2 ++ crlf ((ptr.drop i).take n) } := by
  induction n generalizing i p with
  | zero => simp [writeLoop]
  | succ n ih =>
    have inside : i < ptr.length := by omega
    rw [writeLoop, List.getElem?_eq_getElem inside, List.drop_eq_getElem_cons inside]
    simp only [Option.bind_eq_bind, Option.bind_some]
    rw [ih (by omega), List.take_succ_cons, crlf_cons, crlfChar]
    split
    · rename_i newline
      simp [Port.usartSendBlocking, newline]
    · simp [Port.usartSendBlocking]

/-- **A write to the terminal.** -/
theorem write_terminal (terminal : file = stdoutFileno ∨ file = stderrFileno) (inText : len ≤ ptr.length)
    (p : Port) :
    write file ptr len p = some ((len.toNat : Int), { p with usart2 := p.usart2 ++ crlf (ptr.take len.toNat) }) := by
  rw [write, if_pos terminal, writeLoop_eq (by omega)]
  rfl

/-- Any other file is refused. -/
theorem write_other (other : ¬ (file = stdoutFileno ∨ file = stderrFileno)) (p : Port) :
    write file ptr len p = some (-1, { p with errno := eio }) := if_neg other

end Write

structure WriteCall where
  file : Int
  ptr : List Char
  len : Int

def writes : Service Port WriteCall Int := fun p q => do
  let (ret, p) ← write q.file q.ptr q.len p
  some (p, ret)

/-- What the call puts on the terminal. -/
def WriteCall.text (q : WriteCall) : List Char :=
  if q.file = stdoutFileno ∨ q.file = stderrFileno then q.ptr.take q.len.toNat else []

def WriteCall.ret (q : WriteCall) : Int :=
  if q.file = stdoutFileno ∨ q.file = stderrFileno then q.len.toNat else -1

theorem writes_call {q : WriteCall} (inText : q.len ≤ q.ptr.length) (p : Port) :
    ∃ t, writes p q = some (t, q.ret) ∧ t.usart2 = p.usart2 ++ crlf q.text := by
  by_cases terminal : q.file = stdoutFileno ∨ q.file = stderrFileno
  · rw [writes, write_terminal terminal inText, WriteCall.ret, WriteCall.text, if_pos terminal, if_pos terminal]
    exact ⟨_, rfl, rfl⟩
  · rw [writes, write_other terminal, WriteCall.ret, WriteCall.text, if_neg terminal, if_neg terminal]
    exact ⟨_, rfl, (List.append_nil _).symm⟩

/-- **The line can be read back**: whatever is written by whatever calls, the texts of the calls to the
terminal are what the line carries, newlines translated, and each call says how much of its text was
taken. -/
theorem writes_read_back (qs : List WriteCall) (inText : ∀ q ∈ qs, q.len ≤ q.ptr.length) (errno : Int) :
    ∃ t, writes.serve ⟨[], errno⟩ qs = some (t, qs.map WriteCall.ret) ∧
      uncrlf t.usart2 = qs.flatMap WriteCall.text := by
  suffices served : ∀ p : Port, ∃ t, writes.serve p qs = some (t, qs.map WriteCall.ret) ∧
      t.usart2 = p.usart2 ++ crlf (qs.flatMap WriteCall.text) by
    obtain ⟨t, run, sent⟩ := served ⟨[], errno⟩
    exact ⟨t, run, by rw [sent, List.nil_append, uncrlf_crlf]⟩
  induction qs with
  | nil => exact fun p => ⟨p, rfl, by simp⟩
  | cons q qs ih =>
    intro p
    obtain ⟨first, others⟩ := List.forall_mem_cons.1 inText
    obtain ⟨t, call, sent⟩ := writes_call first p
    obtain ⟨u, rest, sent'⟩ := ih others t
    refine ⟨u, Service.serve_cons_iff.2 ⟨t, _, _, call, rest, rfl⟩, ?_⟩
    rw [sent', sent, List.flatMap_cons, crlf_append, List.append_assoc]

theorem writes_read_back_two : ∃ t,
    writes.serve ⟨[], 0⟩ [⟨1, "a\n".toList, 2⟩, ⟨7, "x".toList, 1⟩, ⟨2, "\rb".toList, 2⟩] =
      some (t, [2, -1, 2]) ∧ uncrlf t.usart2 = "a\n\rb".toList :=
  writes_read_back _ (by decide) 0

/-! ## The main loop -/

structure State where
  port : Port
  /-- What was printed and is not handed to `_write` yet. -/
  stdout : List Char
  /-- How often the button was read. -/
  reads : Nat
  buttonIsPressed : Bool
  i : BitVec 32

def State.printf (s : State) (text : List Char) : State := { s with stdout := s.stdout ++ text }

/-- `level k` is what the pin is at the `k`-th read. -/
def gpioGet (level : Nat → Bool) (s : State) : Bool × State := (level s.reads, { s with reads := s.reads + 1 })

def helloWorld : List Char := "hello world!".toList
def buttonPressed : List Char := "button pressed".toList

/-- The button in one iteration of the loop; a condition reads the pin only if its left side holds. -/
def poll (level : Nat → Bool) (s : State) : State :=
  let (down, s) := if !s.buttonIsPressed then gpioGet level s else (false, s)
  if down then { s with buttonIsPressed := true }
  else
    let (up, s) := if s.buttonIsPressed then (gpioGet level s).map (!·) id else (false, s)
    if up then { s.printf (buttonPressed ++ ['\n']) with buttonIsPressed := false } else s

/-- One iteration of the loop. -/
def iteration (level : Nat → Bool) (s : State) : State :=
  let s := poll level s
  let s := { s with i := s.i + 1 }
  if s.i.toNat % 100000 = 0 then s.printf (Nat.toDigits 10 s.i.toNat ++ ['\n']) else s

inductive Event where
  | iteration
  /-- The library writes the first `n` of the characters that it holds. -/
  | flush (n : Nat)
deriving DecidableEq

/-- The loop of `main`, with the library's writes between its iterations. -/
def main (level : Nat → Bool) : Machine State Event
  | s, .iteration => some (iteration level s)
  | s, .flush n =>
    if n ≤ s.stdout.length then do
      let (ret, port) ← write stdoutFileno s.stdout n s.port
      some { s with port, stdout := s.stdout.drop ret.toNat }
    else none

/-- Before the first iteration. -/
def booted : State where
  port := ⟨[], 0⟩
  stdout := helloWorld ++ ['\n']
  reads := 0
  buttonIsPressed := false
  i := 0

/-! ## What the terminal shows -/

section Shown

variable (level : Nat → Bool)

/-- The button at the read before the `n`-th one, released at first. -/
def previous : Nat → Bool
  | 0 => false
  | n + 1 => level n

/-- The button is released at the `n`-th read. -/
def Released (n : Nat) : Prop := previous level n = true ∧ level n = false

instance (n : Nat) : Decidable (Released level n) := inferInstanceAs (Decidable (_ ∧ _))

def buttonLine (n : Nat) : List (List Char) := if Released level n then [buttonPressed] else []

/-- The counter wraps around after `2 ^ 32` iterations. -/
def counterLine (n : Nat) : List (List Char) :=
  if n % 2 ^ 32 % 100000 = 0 then [Nat.toDigits 10 (n % 2 ^ 32)] else []

/-- What is printed in `n` iterations. -/
def lines : Nat → List (List Char)
  | 0 => [helloWorld]
  | n + 1 => lines n ++ buttonLine level n ++ counterLine (n + 1)

variable {level} {s : State}

/-- The button is read once, and a line is printed when it is released. -/
theorem poll_eq (pressed : s.buttonIsPressed = previous level s.reads) :
    poll level s =
      { s.printf (terminated '\n' (buttonLine level s.reads)) with
        reads := s.reads + 1
        buttonIsPressed := level s.reads } := by
  unfold poll
  rw [pressed]
  cases before : previous level s.reads <;> cases now : level s.reads <;>
    simp [buttonLine, Released, before, now, gpioGet, State.printf, terminated_cons, pressed]

theorem iteration_eq (pressed : s.buttonIsPressed = previous level s.reads) (counter : s.i.toNat = s.reads % 2 ^ 32) :
    ∃ i, i.toNat = (s.reads + 1) % 2 ^ 32 ∧ iteration level s =
      { s.printf (terminated '\n' (buttonLine level s.reads ++ counterLine (s.reads + 1))) with
        reads := s.reads + 1
        buttonIsPressed := level s.reads
        i } := by
  have next : (s.i + 1).toNat = (s.reads + 1) % 2 ^ 32 := by
    rw [BitVec.toNat_add, counter]
    simp
  refine ⟨s.i + 1, next, ?_⟩
  rw [iteration, poll_eq pressed]
  dsimp only
  rw [show (s.printf _).i = s.i from rfl, next, counterLine]
  split
  · simp [State.printf, terminated_cons]
  · simp [State.printf]

/-- No line holds a newline, and a counter line is no button line. -/
theorem counterLine_digits {n : Nat} {line : List Char} (within : line ∈ counterLine n) :
    ∀ c ∈ line, c.isDigit := by
  unfold counterLine at within
  split at within
  · rw [List.mem_singleton.1 within]
    exact fun c digit => Nat.isDigit_of_mem_toDigits (by decide) (by decide) digit
  · cases within

theorem lines_noNewline {n : Nat} : ∀ line ∈ lines level n, '\n' ∉ line := by
  induction n with
  | zero =>
    intro line within
    rw [List.mem_singleton.1 within]
    decide
  | succ n ih =>
    intro line within
    rcases List.mem_append.1 within with before | counter
    · rcases List.mem_append.1 before with before | button
      · exact ih line before
      · unfold buttonLine at button
        split at button
        · rw [List.mem_singleton.1 button]
          decide
        · cases button
    · exact fun newline => absurd (counterLine_digits counter _ newline) (by decide)

/-- **One button line for every release.** -/
theorem count_lines (n : Nat) : (lines level n).count buttonPressed = (List.range n).countP (Released level ·) := by
  induction n with
  | zero => rfl
  | succ n ih =>
    have counter : (counterLine (n + 1)).count buttonPressed = 0 :=
      List.count_eq_zero.2 fun within => absurd (counterLine_digits within 'b' (by decide)) (by decide)
    have button : (buttonLine level n).count buttonPressed = if Released level n then 1 else 0 := by
      unfold buttonLine
      split
      · exact List.count_singleton_self
      · rfl
    rw [lines, List.count_append, List.count_append, ih, counter, button, List.range_succ, List.countP_append]
    simp [List.countP_cons]

end Shown

/-- What is on the line and what waits is what was printed. -/
structure Shows (level : Nat → Bool) (s : State) : Prop where
  pressed : s.buttonIsPressed = previous level s.reads
  counter : s.i.toNat = s.reads % 2 ^ 32
  text : ∃ sent, s.port.usart2 = crlf sent ∧ sent ++ s.stdout = terminated '\n' (lines level s.reads)

namespace Shows

variable {level : Nat → Bool} {s t : State} {n : Nat}

theorem start : Shows level booted := ⟨rfl, rfl, [], rfl, rfl⟩

theorem iteration (shows : Shows level s) : Shows level (iteration level s) := by
  obtain ⟨i, counter, same⟩ := iteration_eq shows.pressed shows.counter
  obtain ⟨sent, line, text⟩ := shows.text
  rw [same]
  refine ⟨rfl, counter, sent, line, ?_⟩
  change sent ++ (s.stdout ++ _) = _
  rw [← List.append_assoc, text, lines, List.append_assoc, ← terminated_append]

/-- A write of what waits. -/
theorem flush (shows : Shows level s) (held : n ≤ s.stdout.length) :
    ∃ t, main level s (.flush n) = some t ∧ Shows level t ∧ t.reads = s.reads ∧ t.stdout = s.stdout.drop n := by
  obtain ⟨sent, line, text⟩ := shows.text
  refine ⟨{ s with port.usart2 := s.port.usart2 ++ crlf (s.stdout.take n), stdout := s.stdout.drop n }, ?_, ?_⟩
  · rw [main, if_pos held, write_terminal (.inl rfl) (Int.ofNat_le.2 held)]
    rfl
  · refine ⟨⟨shows.pressed, shows.counter, sent ++ s.stdout.take n, ?_, ?_⟩, rfl, rfl⟩
    · rw [line, crlf_append]
    · rw [List.append_assoc, List.take_append_drop, text]

/-- **One event**; an iteration reads the button once. -/
theorem step {e : Event} (shows : Shows level s) (step : main level s e = some t) :
    Shows level t ∧ t.reads = s.reads + [e].count .iteration := by
  cases e with
  | iteration =>
    obtain rfl := Option.some.inj step
    obtain ⟨i, -, same⟩ := iteration_eq shows.pressed shows.counter
    exact ⟨shows.iteration, by rw [same]; rfl⟩
  | flush n =>
    have held : n ≤ s.stdout.length := by
      by_contra beyond
      rw [main, if_neg beyond] at step
      cases step
    obtain ⟨u, written, next, reads, -⟩ := shows.flush held
    obtain rfl := Option.some.inj (written.symm.trans step)
    exact ⟨next, reads⟩

theorem run {es : List Event} (run : (main level).Run (fun _ _ => True) booted es s) :
    Shows level s ∧ s.reads = es.count .iteration := by
  induction run with
  | nil => exact ⟨.start, rfl⟩
  | snoc before _ step ih =>
    obtain ⟨next, reads⟩ := ih.1.step step
    rw [reads, ih.2, List.count_append]
    exact ⟨next, rfl⟩

end Shows

/-- **The terminal shows what was printed**, for every course of the button and whenever the library
writes: the lines that are complete on it are the first of `hello world!`, the button lines and the
counter lines in their order, nothing but what still waits is missing, a write of what waits
always succeeds, and there is one button line for every release among the reads, of which each
iteration makes one. -/
theorem example_shows (level : Nat → Bool) {es : List Event} {s : State}
    (run : (main level).Run (fun _ _ => True) booted es s) :
    s.reads = es.count .iteration ∧ ended '\n' (uncrlf s.port.usart2) <+: lines level s.reads ∧
      uncrlf s.port.usart2 ++ s.stdout = terminated '\n' (lines level s.reads) ∧
      (∃ t, main level s (.flush s.stdout.length) = some t ∧
        ended '\n' (uncrlf t.port.usart2) = lines level s.reads) ∧
      (lines level s.reads).count buttonPressed = (List.range s.reads).countP (Released level ·) := by
  obtain ⟨shows, reads⟩ := Shows.run run
  obtain ⟨sent, line, text⟩ := shows.text
  have noNewline : ∀ line ∈ lines level s.reads, '\n' ∉ line := lines_noNewline
  have complete := ended_terminated noNewline
  refine ⟨reads, ?_, ?_, ?_, count_lines s.reads⟩
  · rw [line, uncrlf_crlf, ← complete.1, ← text]
    exact ended_prefix (List.prefix_append _ _)
  · rw [line, uncrlf_crlf, text]
  · obtain ⟨t, written, shows', same, empty⟩ := shows.flush (Nat.le_refl _)
    obtain ⟨sent', line', text'⟩ := shows'.text
    rw [empty, List.drop_length, List.append_nil, same] at text'
    exact ⟨t, written, by rw [line', uncrlf_crlf, text', complete.1]⟩

/-- A press and a release, written in two parts. -/
theorem example_shows_press : ∃ s, (main (· == 1)).Run (fun _ _ => True) booted
      [.iteration, .iteration, .flush 13, .iteration, .flush 15] s ∧
    ended '\n' (uncrlf s.port.usart2) <+: [helloWorld, buttonPressed] := by
  obtain ⟨s, exec, reads⟩ : ∃ s, (main (· == 1)).exec (fun _ _ => True) booted
      [.iteration, .iteration, .flush 13, .iteration, .flush 15] = some s ∧ s.reads = 3 := ⟨_, rfl, rfl⟩
  have run := Machine.exec_run exec
  obtain ⟨-, shown, -⟩ := example_shows _ run
  rw [reads] at shown
  exact ⟨s, run, shown⟩

end Maskset.Renode
