import Maskset.Logic.Machine
import Maskset.Logic.Memory

/-!
# The UART receive buffer

`shell_port.c`: the callback of the receive interrupt and `shell_port_getchar`, cut
into its statements. The interrupt may fire between any two of them, except while
interrupts are disabled. Beside the source's variables the state counts the removals
and keeps what a tester sees: the accepted characters and the results of the calls.
-/

namespace Maskset.Uart
set_option autoImplicit false

open Maskset.Logic

def bufSize : Nat := 64

/-- `s_uart_buffer`, zero as the image leaves it. -/
structure UartBuffer where
  readIdx : Nat := 0
  numBytes : Nat := 0
  buf : Vector Char bufSize := .replicate bufSize '\x00'
deriving DecidableEq

def uartByteReceivedFromIsrCb (c : Char) (b : UartBuffer) : Option UartBuffer :=
  if b.numBytes ≥ bufSize then some b -- drop, out of space
  else do
    let buf ← store b.buf b.readIdx c
    pure { b with buf, numBytes := sizeSucc b.numBytes }

/-- The next statement of `shell_port_getchar`, with its local `c` once it is read. -/
inductive Pc where
  | check
  | read
  | disableIrq (c : Char)
  | advance (c : Char)
  | decrement (c : Char)
  | enableIrq (c : Char)
  | ret (c : Char)
deriving DecidableEq

structure Port where
  buffer : UartBuffer := {}
  irqEnabled : Bool := true
  pc : Pc := .check
  accepted : List Char := []
  removed : Nat := 0
  /-- What the calls returned: `none` for `false`, else the character. -/
  calls : List (Option Char) := []
deriving DecidableEq

/-- The characters that calls returned with `true`. -/
def Port.returned (s : Port) : List Char := s.calls.reduceOption

/-- The main loop's next statement; after the last one the next call begins. -/
def shellPortGetcharStep (s : Port) : Option Port :=
  match s.pc with
  | .check =>
    if s.buffer.numBytes = 0 then some { s with calls := s.calls ++ [none] }
    else some { s with pc := .read }
  | .read => do
    let c ← load s.buffer.buf s.buffer.readIdx
    pure { s with pc := .disableIrq c }
  | .disableIrq c => some { s with pc := .advance c, irqEnabled := false }
  | .advance c => some { s with
      pc := .decrement c
      buffer := { s.buffer with readIdx := sizeSucc s.buffer.readIdx % bufSize } }
  | .decrement c => some { s with
      pc := .enableIrq c
      buffer := { s.buffer with numBytes := sizePred s.buffer.numBytes }
      removed := s.removed + 1 }
  | .enableIrq c => some { s with pc := .ret c, irqEnabled := true }
  | .ret c => some { s with pc := .check, calls := s.calls ++ [some c] }

inductive Event where
  | isr (c : Char)
  | main
deriving DecidableEq

/-- One statement of the main loop, or the callback as a whole: nothing interrupts it. -/
def port : Machine Port Event
  | s, .isr c =>
    if s.irqEnabled then do
      let buffer ← uartByteReceivedFromIsrCb c s.buffer
      pure { s with
        buffer
        accepted := if s.buffer.numBytes < bufSize then s.accepted ++ [c] else s.accepted }
    else none
  | s, .main => shellPortGetcharStep s

end Maskset.Uart
