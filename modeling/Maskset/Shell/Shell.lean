import Maskset.Logic.Memory

/-!
# The shell

`shell.c`: a line editor over one buffer, which splits a finished line in place and
dispatches it. A pointer into `rx_buffer` is its index; an access outside the buffer
gives `none`. The trace holds what leaves the shell: the characters it sends, and for
every processed line the arguments it found and what it ran with them. A handler may
print and may leave anything in the buffer its arguments point into.
-/

namespace Maskset.Shell
set_option autoImplicit false

open Maskset.Logic

def rxBufferSize : Nat := 256
def maxArgs : Nat := 16
def prompt : List Char := "shell> ".toList

abbrev backspace : Char := '\x08'

inductive Event where
  | sent (c : Char)
  | line (argv : List (List Char))
  | run (command : Nat) (argv : List (List Char))
  | unknown (name : List Char)
deriving DecidableEq

/-- `s_shell`; `booted` says that `send_char` is not null. -/
structure ShellContext where
  booted : Bool
  rxSize : Nat
  rxBuffer : Vector Char rxBufferSize
  trace : List Event

/-- What a handler does: the characters it sends and the buffer it leaves. -/
structure Effect where
  printed : List Char
  rxBuffer : Vector Char rxBufferSize

structure Command where
  command : List Char
  handler : List (List Char) → ShellContext → Effect

namespace ShellContext

def observe (s : ShellContext) (e : Event) : ShellContext := { s with trace := s.trace ++ [e] }

def prvSendChar (s : ShellContext) (c : Char) : ShellContext := if s.booted then s.observe (.sent c) else s

def prvEcho (s : ShellContext) (c : Char) : ShellContext :=
  if c = '\n' then (s.prvSendChar '\r').prvSendChar '\n'
  else if c = backspace then ((s.prvSendChar backspace).prvSendChar ' ').prvSendChar backspace
  else s.prvSendChar c

def prvLastChar (s : ShellContext) : Option Char := load s.rxBuffer (sizePred s.rxSize)

def prvIsRxBufferFull (s : ShellContext) : Prop := s.rxSize ≥ rxBufferSize

instance (s : ShellContext) : Decidable s.prvIsRxBufferFull := inferInstanceAs (Decidable (_ ≥ _))

def prvResetRxBuffer (s : ShellContext) : ShellContext :=
  { s with rxBuffer := .replicate rxBufferSize '\x00', rxSize := 0 }

def prvEchoStr (s : ShellContext) (str : List Char) : ShellContext := str.foldl prvEcho s

def prvSendPrompt (s : ShellContext) : ShellContext := s.prvEchoStr prompt

/-- The call of a handler. -/
def call (s : ShellContext) (command : Command) (argv : List (List Char)) : ShellContext :=
  let effect := command.handler argv s
  { s with rxBuffer := effect.rxBuffer, trace := s.trace ++ effect.printed.map .sent }

end ShellContext

open ShellContext

/-- `SHELL_FOR_EACH_COMMAND` from entry `k` on, up to the first with the name. -/
def prvFindCommand (name : List Char) : Nat → List Command → Option (Nat × Command)
  | _, [] => none
  | k, command :: commands =>
    if command.command = name then some (k, command) else prvFindCommand name (k + 1) commands

/-- The loop of `prv_process` with `n` iterations left, at index `i`. -/
def splitArgs (rxSize : Nat) : Nat → Nat → Vector Char rxBufferSize → List Nat → Option Nat →
    Option (Vector Char rxBufferSize × List Nat)
  | 0, _, rxBuffer, argv, _ => some (rxBuffer, argv)
  | n + 1, i, rxBuffer, argv, nextArg =>
    if argv.length < maxArgs then do
      let c ← load rxBuffer i
      if c = ' ' ∨ c = '\n' ∨ i = rxSize - 1 then
        let rxBuffer ← store rxBuffer i '\x00'
        match nextArg with
        | some arg => splitArgs rxSize n (i + 1) rxBuffer (argv ++ [arg]) none
        | none => splitArgs rxSize n (i + 1) rxBuffer argv none
      else
        match nextArg with
        | some arg => splitArgs rxSize n (i + 1) rxBuffer argv (some arg)
        | none => splitArgs rxSize n (i + 1) rxBuffer argv (some i)
    else some (rxBuffer, argv)

/-- The dispatch of `prv_process`, with the strings `argv` points to. -/
def dispatch (commands : List Command) (s : ShellContext) : List (List Char) → ShellContext
  | [] => s
  | name :: args =>
    match prvFindCommand name 0 commands with
    | none =>
      let s := (s.observe (.unknown name)).prvEchoStr "Unknown command: ".toList
      let s := (s.prvEchoStr name).prvEcho '\n'
      s.prvEchoStr "Type 'help' to list all commands\n".toList
    | some (k, command) => (s.observe (.run k (name :: args))).call command (name :: args)

def prvProcess (commands : List Command) (s : ShellContext) : Option ShellContext := do
  let last ← s.prvLastChar
  if last ≠ '\n' ∧ ¬ s.prvIsRxBufferFull then pure s
  else
    let (rxBuffer, argv) ← splitArgs s.rxSize s.rxSize 0 s.rxBuffer [] none
    let s := { s with rxBuffer }
    let s := if s.rxSize = rxBufferSize then s.prvEcho '\n' else s
    let args ← argv.mapM (cString s.rxBuffer.toList)
    let s := dispatch commands (s.observe (.line args)) args
    pure s.prvResetRxBuffer.prvSendPrompt

/-- `shell_boot` with a `send_char`. -/
def shellBoot (s : ShellContext) : ShellContext :=
  ({ s with booted := true } : ShellContext).prvResetRxBuffer.prvEchoStr ('\n' :: prompt)

def shellReceiveChar (commands : List Command) (s : ShellContext) (c : Char) : Option ShellContext :=
  if c = '\r' ∨ s.prvIsRxBufferFull ∨ ¬ s.booted then some s
  else
    let isBackspace := c = backspace
    if isBackspace ∧ s.rxSize = 0 then some s -- nothing left to delete so don't echo the backspace
    else
      let s := s.prvEcho c
      if isBackspace then do
        let rxBuffer ← store s.rxBuffer (sizePred s.rxSize) '\x00'
        pure { s with rxBuffer, rxSize := sizePred s.rxSize }
      else if c = backspace then do
        let rxBuffer ← store s.rxBuffer (sizePred s.rxSize) '\x00'
        pure { s with rxBuffer, rxSize := sizePred s.rxSize }
      else do
        let rxBuffer ← store s.rxBuffer s.rxSize c
        prvProcess commands { s with rxBuffer, rxSize := sizeSucc s.rxSize }

end Maskset.Shell
