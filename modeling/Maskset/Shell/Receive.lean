import Maskset.Shell.Parse

/-!
# One character

`Holds s line`: between calls the buffer holds the edited line and is NUL behind it.
One lemma for each thing `shell_receive_char` can do: nothing, delete the last
character, append one, or process the line.
-/

namespace Maskset.Shell
set_option autoImplicit false

open Maskset.Logic

/-- What is recorded about the lines, apart from the characters sent. -/
def Event.isResult : Event → Bool
  | .sent _ => false
  | _ => true

def ShellContext.results (s : ShellContext) : List Event := s.trace.filter Event.isResult

def Event.character : Event → Option Char
  | .sent c => some c
  | _ => none

/-- All characters sent so far. -/
def ShellContext.sent (s : ShellContext) : List Char := s.trace.filterMap Event.character

/-- What the terminal receives for an echoed character. -/
def echoed (c : Char) : List Char :=
  if c = '\n' then ['\r', '\n'] else if c = backspace then [backspace, ' ', backspace] else [c]

/-- Nothing, or text that ends with a line end. -/
def WholeLines (text : List Char) : Prop := text = [] ∨ ∃ body, text = body ++ ['\n']

/-- Every handler prints whole lines through the echo functions. -/
def PrintsLines (commands : List Command) : Prop :=
  ∀ command ∈ commands, ∀ argv s, ∃ text, (command.handler argv s).printed = text.flatMap echoed ∧ WholeLines text

namespace ShellContext

/-- The characters are sent. -/
def print (s : ShellContext) (text : List Char) : ShellContext := { s with trace := s.trace ++ text.map .sent }

variable {s : ShellContext} {text text' : List Char} {c : Char} {e : Event}

@[simp] theorem print_booted : (s.print text).booted = s.booted := rfl
@[simp] theorem print_rxSize : (s.print text).rxSize = s.rxSize := rfl
@[simp] theorem print_rxBuffer : (s.print text).rxBuffer = s.rxBuffer := rfl

@[simp] theorem print_print : (s.print text).print text' = s.print (text ++ text') := by
  simp [print]

@[simp] theorem print_nil : s.print [] = s := by simp [print]

theorem results_append {trace : List Event} :
    { s with trace := s.trace ++ trace }.results = s.results ++ trace.filter Event.isResult :=
  List.filter_append ..

@[simp] theorem results_print : (s.print text).results = s.results := by
  have sent : (text.map Event.sent).filter Event.isResult = [] := by
    simp [List.filter_eq_nil_iff, Event.isResult]
  rw [print, results_append, sent, List.append_nil]

theorem results_observe (e : Event) (result : e.isResult = true) : (s.observe e).results = s.results ++ [e] := by
  rw [observe, results_append, List.filter_cons_of_pos result, List.filter_nil]

theorem sent_append {trace : List Event} :
    { s with trace := s.trace ++ trace }.sent = s.sent ++ trace.filterMap Event.character :=
  List.filterMap_append ..

@[simp] theorem sent_print : (s.print text).sent = s.sent ++ text := by
  have characters : (text.map Event.sent).filterMap Event.character = text := by
    rw [List.filterMap_map]
    exact List.filterMap_some
  rw [print, sent_append, characters]

theorem sent_observe (e : Event) (result : e.isResult = true) : (s.observe e).sent = s.sent := by
  cases e with
  | sent c => cases result
  | line argv => exact sent_append.trans (List.append_nil _)
  | run k argv => exact sent_append.trans (List.append_nil _)
  | unknown name => exact sent_append.trans (List.append_nil _)

theorem prvSendChar_eq (booted : s.booted = true) (c : Char) : s.prvSendChar c = s.print [c] := by
  rw [prvSendChar, if_pos booted]
  rfl

theorem prvEcho_eq (booted : s.booted = true) (c : Char) : s.prvEcho c = s.print (echoed c) := by
  rw [prvEcho, echoed]
  split
  · simp [prvSendChar_eq, booted]
  split
  · simp [prvSendChar_eq, booted]
  · exact prvSendChar_eq booted c

theorem prvEchoStr_eq (booted : s.booted = true) (str : List Char) :
    s.prvEchoStr str = s.print (str.flatMap echoed) := by
  induction str generalizing s with
  | nil => exact print_nil.symm
  | cons c str ih =>
    have step : s.prvEchoStr (c :: str) = (s.prvEcho c).prvEchoStr str := rfl
    rw [step, prvEcho_eq booted, ih (by simpa using booted), print_print, List.flatMap_cons]

theorem prvEchoStr_append {str str' : List Char} : s.prvEchoStr (str ++ str') = (s.prvEchoStr str).prvEchoStr str' :=
  List.foldl_append

theorem prvEchoStr_singleton : s.prvEchoStr [c] = s.prvEcho c := rfl

theorem prvSendPrompt_eq (booted : s.booted = true) : s.prvSendPrompt = s.print prompt := by
  rw [prvSendPrompt, prvEchoStr_eq booted]
  rfl

/-! What is sent does not change the record. -/

@[simp] theorem prvSendChar_booted : (s.prvSendChar c).booted = s.booted := by
  rw [prvSendChar]
  split <;> rfl

@[simp] theorem prvSendChar_results : (s.prvSendChar c).results = s.results := by
  by_cases booted : s.booted = true
  · rw [prvSendChar_eq booted, results_print]
  · rw [prvSendChar, if_neg booted]

@[simp] theorem prvEcho_booted : (s.prvEcho c).booted = s.booted := by
  rw [prvEcho]
  split
  · simp
  · split <;> simp

@[simp] theorem prvEcho_results : (s.prvEcho c).results = s.results := by
  rw [prvEcho]
  split
  · simp
  · split <;> simp

@[simp] theorem prvEchoStr_booted {str : List Char} : (s.prvEchoStr str).booted = s.booted := by
  induction str generalizing s with
  | nil => rfl
  | cons c str ih => exact ih.trans prvEcho_booted

@[simp] theorem prvEchoStr_results {str : List Char} : (s.prvEchoStr str).results = s.results := by
  induction str generalizing s with
  | nil => rfl
  | cons c str ih => exact ih.trans prvEcho_results

theorem call_eq (command : Command) (argv : List (List Char)) :
    s.call command argv = { s.print (command.handler argv s).printed with
      rxBuffer := (command.handler argv s).rxBuffer } := rfl

theorem call_results (command : Command) (argv : List (List Char)) :
    (s.call command argv).results = s.results := results_print

@[simp] theorem call_booted (command : Command) (argv : List (List Char)) :
    (s.call command argv).booted = s.booted := rfl

end ShellContext

open ShellContext

/-- Between two calls: the edited line is in the buffer, and NULs behind it. -/
structure Holds (s : ShellContext) (line : List Char) : Prop where
  booted : s.booted = true
  size : s.rxSize = line.length
  content : s.rxBuffer.toList = line ++ List.replicate (rxBufferSize - line.length) '\x00'

theorem holds_reset {s : ShellContext} (booted : s.booted = true) : Holds s.prvResetRxBuffer.prvSendPrompt [] := by
  have still : s.prvResetRxBuffer.booted = true := booted
  rw [prvSendPrompt_eq still]
  exact ⟨booted, rfl, Vector.toList_replicate⟩

theorem reset_results (s : ShellContext) : s.prvResetRxBuffer.prvSendPrompt.results = s.results :=
  prvEchoStr_results

theorem reset_sent {s : ShellContext} (booted : s.booted = true) :
    s.prvResetRxBuffer.prvSendPrompt.sent = s.sent ++ prompt := by
  have still : s.prvResetRxBuffer.booted = true := booted
  rw [prvSendPrompt_eq still, sent_print]
  rfl

theorem holds_boot (s : ShellContext) :
    Holds (shellBoot s) [] ∧ (shellBoot s).results = s.results ∧
      (shellBoot s).sent = s.sent ++ (['\r', '\n'] ++ prompt) := by
  have booted : ({ s with booted := true } : ShellContext).prvResetRxBuffer.booted = true := rfl
  rw [shellBoot, prvEchoStr_eq booted, results_print, sent_print]
  exact ⟨⟨rfl, rfl, Vector.toList_replicate⟩, rfl, rfl⟩

/-! ## Processing a line -/

/-- The entry that is run: the first with the name. -/
theorem prvFindCommand_eq (name : List Char) (k : Nat) (commands : List Command) :
    (prvFindCommand name k commands).map Prod.fst =
      (commands.findIdx? fun command => command.command = name).map (k + ·) := by
  induction commands generalizing k with
  | nil => rfl
  | cons command commands ih =>
    rw [prvFindCommand, List.findIdx?_cons]
    by_cases found : command.command = name
    · simp [found]
    · rw [if_neg found, ih]
      simp [found, Function.comp_def, Nat.add_assoc, Nat.add_comm 1]

theorem prvFindCommand_mem {name : List Char} {k : Nat} {commands : List Command} {entry : Nat × Command}
    (found : prvFindCommand name k commands = some entry) : entry.2 ∈ commands := by
  induction commands generalizing k with
  | nil => cases found
  | cons command commands ih =>
    rw [prvFindCommand] at found
    split at found
    · obtain rfl := Option.some.inj found
      exact List.mem_cons_self
    · exact List.mem_cons_of_mem _ (ih found)

/-- What is recorded about a line with these arguments. -/
def lineEvents (commands : List Command) (args : List (List Char)) : List Event :=
  .line args ::
    match args with
    | [] => []
    | name :: _ =>
      match commands.findIdx? fun command => command.command = name with
      | some k => [.run k args]
      | none => [.unknown name]

theorem dispatch_spec {s : ShellContext} (booted : s.booted = true) (commands : List Command)
    (args : List (List Char)) :
    (dispatch commands (s.observe (.line args)) args).booted = true ∧
      (dispatch commands (s.observe (.line args)) args).results = s.results ++ lineEvents commands args := by
  cases args with
  | nil => exact ⟨booted, results_observe _ rfl⟩
  | cons name args =>
    have found := prvFindCommand_eq name 0 commands
    rw [dispatch, lineEvents]
    cases search : prvFindCommand name 0 commands with
    | none =>
      rw [search] at found
      have unknown : (commands.findIdx? fun command => command.command = name) = none := by
        simpa using found.symm
      simp only [unknown, prvEchoStr_booted, prvEcho_booted, prvEchoStr_results, prvEcho_results]
      rw [results_observe _ rfl, results_observe _ rfl, List.append_assoc]
      exact ⟨booted, rfl⟩
    | some entry =>
      obtain ⟨k, command⟩ := entry
      rw [search] at found
      have ran : (commands.findIdx? fun command => command.command = name) = some k := by
        simpa using found.symm
      simp only [ran, call_results, call_booted]
      rw [results_observe _ rfl, results_observe _ rfl, List.append_assoc]
      exact ⟨booted, rfl⟩

/-! What the dispatch of a line sends. -/

theorem WholeLines.append {text text' : List Char} (lines : WholeLines text) (lines' : WholeLines text') :
    WholeLines (text ++ text') := by
  rcases lines' with rfl | ⟨body, rfl⟩
  · rw [List.append_nil]
    exact lines
  · exact .inr ⟨text ++ body, (List.append_assoc ..).symm⟩

theorem WholeLines.echo {text : List Char} (lines : WholeLines text) : WholeLines (text.flatMap echoed) := by
  rcases lines with rfl | ⟨body, rfl⟩
  · exact .inl rfl
  · refine .inr ⟨body.flatMap echoed ++ ['\r'], ?_⟩
    rw [List.flatMap_append, List.append_assoc]
    rfl

/-- The answer to a name that is not in the table. -/
def unknownReply (name : List Char) : List Char :=
  "Unknown command: ".toList ++ name ++ ['\n'] ++ "Type 'help' to list all commands\n".toList

theorem wholeLines_unknownReply (name : List Char) : WholeLines (unknownReply name) := by
  apply WholeLines.append
  · exact .inr ⟨_, rfl⟩
  · exact .inr ⟨"Type 'help' to list all commands".toList, by decide⟩

theorem prvEchoStr_unknownReply (s : ShellContext) (name : List Char) :
    s.prvEchoStr (unknownReply name) = (((s.prvEchoStr "Unknown command: ".toList).prvEchoStr name).prvEcho
      '\n').prvEchoStr "Type 'help' to list all commands\n".toList := by
  change s.prvEchoStr ("Unknown command: ".toList ++ name ++ ['\n'] ++ "Type 'help' to list all commands\n".toList) = _
  simp only [prvEchoStr_append, prvEchoStr_singleton]

theorem dispatch_sent {s : ShellContext} (booted : s.booted = true) (commands : List Command)
    (args : List (List Char)) :
    ∃ text, (dispatch commands (s.observe (.line args)) args).sent = s.sent ++ text ∧
      (PrintsLines commands → WholeLines text) := by
  cases args with
  | nil => exact ⟨[], (sent_observe _ rfl).trans (List.append_nil _).symm, fun _ => .inl rfl⟩
  | cons name args =>
    rw [dispatch]
    cases search : prvFindCommand name 0 commands with
    | none =>
      let t := (s.observe (.line (name :: args))).observe (.unknown name)
      have booted' : t.booted = true := booted
      refine ⟨(unknownReply name).flatMap echoed, ?_, fun _ => (wholeLines_unknownReply name).echo⟩
      dsimp only
      rw [← prvEchoStr_unknownReply, prvEchoStr_eq booted', sent_print, sent_observe _ rfl, sent_observe _ rfl]
    | some entry =>
      obtain ⟨k, command⟩ := entry
      dsimp only
      let t := (s.observe (.line (name :: args))).observe (.run k (name :: args))
      refine ⟨(command.handler (name :: args) t).printed, ?_, ?_⟩
      · rw [call_eq]
        change (t.print _).sent = _
        rw [sent_print, sent_observe _ rfl, sent_observe _ rfl]
      · intro prints
        obtain ⟨text, printed, lines⟩ := prints command (prvFindCommand_mem search) (name :: args) t
        rw [printed]
        exact lines.echo

section Receive

variable (commands : List Command) {s : ShellContext} {line behind : List Char} {z c : Char}

theorem prvLastChar_eq (size : s.rxSize = line.length + 1) (content : s.rxBuffer.toList = line ++ z :: behind) :
    s.prvLastChar = some z := by
  have last : sizePred (line.length + 1) = line.length := sizePred_eq (Nat.succ_ne_zero _)
  rw [prvLastChar, size, last, load_content content]

/-- The split of a buffered line. -/
theorem splitArgs_line (size : s.rxSize = line.length + 1) (content : s.rxBuffer.toList = line ++ z :: behind) :
    ∃ rxBuffer argv, splitArgs s.rxSize s.rxSize 0 s.rxBuffer [] none = some (rxBuffer, argv) ∧
      PointsTo rxBuffer.toList argv (((runs blank line).map untilNul).take maxArgs) := by
  have start : ([] : List Char).length + line.length + 1 = s.rxSize := by rw [size, List.length_nil, Nat.zero_add]
  have opened : Opened [] [] none := rfl
  have closed : PointsTo [] [] [] := .nil
  obtain ⟨rxBuffer, argv, split, strings⟩ := splitArgs_collect content start.symm (Nat.zero_le _) closed opened
  rw [List.nil_append, collect_nil] at strings
  refine ⟨rxBuffer, argv, ?_, strings⟩
  rw [← split, size]
  rfl

/-- **Processing a line**: it is dispatched with its first sixteen runs, each up to its first
NUL, and the buffer is left empty. -/
theorem prvProcess_runs (booted : s.booted = true) (size : s.rxSize = line.length + 1)
    (content : s.rxBuffer.toList = line ++ z :: behind) (ends : z = '\n' ∨ s.prvIsRxBufferFull) :
    ∃ t, prvProcess commands s = some t ∧ Holds t [] ∧
      t.results = s.results ++ lineEvents commands (((runs blank line).map untilNul).take maxArgs) ∧
      ∃ text, t.sent = s.sent ++ (if s.rxSize = rxBufferSize then echoed '\n' else []) ++ text ++ prompt ∧
        (PrintsLines commands → WholeLines text) := by
  have guard : ¬ (z ≠ '\n' ∧ ¬ s.prvIsRxBufferFull) := by
    rcases ends with newline | full
    · exact fun goesOn => goesOn.1 newline
    · exact fun goesOn => goesOn.2 full
  obtain ⟨rxBuffer, argv, splits, strings⟩ := splitArgs_line size content
  generalize ((runs blank line).map untilNul).take maxArgs = args at strings ⊢
  let s' : ShellContext := { s with rxBuffer }
  have booted' : s'.booted = true := booted
  have echo : (if s'.rxSize = rxBufferSize then s'.prvEcho '\n' else s') =
      s'.print (if s'.rxSize = rxBufferSize then echoed '\n' else []) := by
    split
    · exact prvEcho_eq booted' '\n'
    · exact print_nil.symm
  have size' : s'.rxSize = s.rxSize := rfl
  rw [size'] at echo
  generalize (if s.rxSize = rxBufferSize then echoed '\n' else []) = text at echo ⊢
  have strings' : argv.mapM (cString (s'.print text).rxBuffer.toList) = some args := strings.mapM
  have booted'' : (s'.print text).booted = true := booted
  obtain ⟨still, events⟩ := dispatch_spec booted'' commands args
  obtain ⟨answer, sent, lines⟩ := dispatch_sent booted'' commands args
  refine ⟨_, ?_, holds_reset still, ?_, answer, ?_, lines⟩
  · rw [prvProcess, prvLastChar_eq size content, Option.bind_eq_bind, Option.bind_some, if_neg guard, splits,
      Option.bind_eq_bind, Option.bind_some]
    change (argv.mapM (cString (if s'.rxSize = rxBufferSize then s'.prvEcho '\n' else s').rxBuffer.toList) >>=
      fun args => pure (dispatch commands ((if s'.rxSize = rxBufferSize then s'.prvEcho '\n' else s').observe
        (.line args)) args).prvResetRxBuffer.prvSendPrompt) = _
    rw [echo, strings']
    rfl
  · rw [reset_results, events, results_print]
    rfl
  · rw [reset_sent still, sent, sent_print]
    rfl

/-- Without a NUL in the line its strings are its runs. -/
theorem map_untilNul_runs (noNul : '\x00' ∉ line) : (runs blank line).map untilNul = runs blank line := by
  have whole : ∀ run ∈ runs blank line, untilNul run = id run := by
    intro run within
    exact untilNul_eq fun nul => noNul (subset_of_mem_runs within nul)
  rw [List.map_congr_left whole, List.map_id]

/-- A line that goes on is left alone. -/
theorem prvProcess_skip (size : s.rxSize = line.length + 1) (content : s.rxBuffer.toList = line ++ z :: behind)
    (goesOn : z ≠ '\n') (room : ¬ s.prvIsRxBufferFull) : prvProcess commands s = some s := by
  rw [prvProcess, prvLastChar_eq size content, Option.bind_eq_bind, Option.bind_some, if_pos ⟨goesOn, room⟩]
  rfl

/-! ## Receiving a character -/

theorem Holds.notFull (holds : Holds s line) (room : line.length < rxBufferSize) : ¬ s.prvIsRxBufferFull := by
  rw [prvIsRxBufferFull, holds.size]
  omega

/-- The cell behind the line. -/
theorem Holds.next (holds : Holds s line) (room : line.length < rxBufferSize) :
    s.rxBuffer.toList = line ++ '\x00' :: List.replicate (rxBufferSize - (line.length + 1)) '\x00' := by
  rw [holds.content, ← List.replicate_succ]
  congr 2
  omega

theorem receive_cr (s : ShellContext) : shellReceiveChar commands s '\r' = some s := if_pos (.inl rfl)

/-- A backspace deletes the last character of the line, if there is one. -/
theorem receive_backspace (holds : Holds s line) (room : line.length < rxBufferSize) :
    ∃ t, shellReceiveChar commands s backspace = some t ∧ Holds t line.dropLast ∧ t.results = s.results ∧
      t.sent = s.sent ++ if line = [] then [] else echoed backspace := by
  have open' : ¬ (backspace = '\r' ∨ s.prvIsRxBufferFull ∨ ¬ s.booted) := by
    simp only [holds.notFull room, holds.booted, not_true_eq_false, or_false]
    decide
  rw [shellReceiveChar, if_neg open']
  dsimp only
  by_cases empty : line = []
  · subst empty
    exact ⟨s, if_pos ⟨rfl, holds.size⟩, holds, rfl, (List.append_nil _).symm⟩
  have some : line.length ≠ 0 := by simpa using empty
  have last : sizePred s.rxSize = line.dropLast.length := by
    rw [holds.size, sizePred_eq some, List.length_dropLast]
  have content : s.rxBuffer.toList = line.dropLast ++
      line.getLast empty :: List.replicate (rxBufferSize - line.length) '\x00' := by
    rw [List.append_cons, List.dropLast_append_getLast, holds.content]
  obtain ⟨rxBuffer, stored, content'⟩ := store_content (a := '\x00') content
  refine ⟨{ s.print (echoed backspace) with rxBuffer, rxSize := line.dropLast.length }, ?_, ⟨holds.booted, rfl, ?_⟩,
    results_print, ?_⟩
  · have deletes : ¬ (backspace = backspace ∧ s.rxSize = 0) := by simp [holds.size, empty]
    rw [if_neg deletes, if_pos rfl, prvEcho_eq holds.booted, print_rxSize, print_rxBuffer, last, stored]
    rfl
  · rw [content', ← List.replicate_succ, List.length_dropLast]
    congr 2
    omega
  · rw [if_neg empty]
    exact sent_print

/-- The store of a character that is not filtered out. -/
theorem receive_store (holds : Holds s line) (room : line.length < rxBufferSize) (notCr : c ≠ '\r')
    (notBackspace : c ≠ backspace) :
    ∃ t : ShellContext, shellReceiveChar commands s c = prvProcess commands t ∧ t.booted = true ∧
      t.rxSize = line.length + 1 ∧ t.results = s.results ∧ t.sent = s.sent ++ echoed c ∧
      t.rxBuffer.toList = line ++ c :: List.replicate (rxBufferSize - (line.length + 1)) '\x00' := by
  have open' : ¬ (c = '\r' ∨ s.prvIsRxBufferFull ∨ ¬ s.booted) := by
    simp [notCr, holds.notFull room, holds.booted]
  obtain ⟨rxBuffer, stored, content⟩ := store_content (a := c) (holds.next room)
  have grown : sizeSucc s.rxSize = line.length + 1 := by
    rw [holds.size, sizeSucc_eq (Nat.lt_trans room (by decide))]
  refine ⟨{ s.print (echoed c) with rxBuffer, rxSize := line.length + 1 }, ?_, holds.booted, rfl, results_print,
    sent_print, content⟩
  rw [shellReceiveChar, if_neg open']
  dsimp only
  rw [if_neg fun h => notBackspace h.1, if_neg notBackspace, if_neg notBackspace, prvEcho_eq holds.booted,
    print_rxSize, print_rxBuffer, grown, holds.size, stored]
  rfl

/-- Any other character but a newline goes behind the line. -/
theorem receive_char (holds : Holds s line) (room : line.length + 1 < rxBufferSize) (notCr : c ≠ '\r')
    (notBackspace : c ≠ backspace) (notNewline : c ≠ '\n') :
    ∃ t, shellReceiveChar commands s c = some t ∧ Holds t (line ++ [c]) ∧ t.results = s.results ∧
      t.sent = s.sent ++ echoed c := by
  obtain ⟨t, stored, booted, size, same, sent, content⟩ := receive_store commands holds (by omega) notCr notBackspace
  have goesOn : ¬ t.prvIsRxBufferFull := by
    rw [prvIsRxBufferFull, size]
    omega
  refine ⟨t, stored.trans (prvProcess_skip commands size content notNewline goesOn), ⟨booted, ?_, ?_⟩, same,
    sent⟩
  · rw [size, List.length_append, List.length_singleton]
  · rw [content, List.length_append, List.length_singleton, List.append_cons]

/-- **A newline dispatches the line**, and so does the character that fills the buffer, which is lost. -/
theorem receive_end (holds : Holds s line) (room : line.length < rxBufferSize) (notCr : c ≠ '\r')
    (notBackspace : c ≠ backspace) (ends : c = '\n' ∨ line.length + 1 = rxBufferSize) :
    ∃ t, shellReceiveChar commands s c = some t ∧ Holds t [] ∧
      t.results = s.results ++ lineEvents commands (((runs blank line).map untilNul).take maxArgs) ∧
      ∃ out, t.sent = s.sent ++ out ++ prompt ∧ (PrintsLines commands → ∃ body, out = body ++ ['\n']) := by
  obtain ⟨t, stored, booted, size, same, echo, content⟩ := receive_store commands holds room notCr notBackspace
  have ends' : c = '\n' ∨ t.prvIsRxBufferFull := by
    rcases ends with newline | last
    · exact .inl newline
    · exact .inr (Nat.le_of_eq (last.symm.trans size.symm))
  obtain ⟨u, processed, fresh, events, text, sent, lines⟩ := prvProcess_runs commands booted size content ends'
  refine ⟨u, stored.trans processed, fresh, same ▸ events,
    echoed c ++ (if t.rxSize = rxBufferSize then echoed '\n' else []) ++ text, ?_, ?_⟩
  · rw [sent, echo]
    simp only [List.append_assoc]
  · intro prints
    -- the echo of the last character ends a line, or the full buffer adds a line end
    have ended : ∃ body, echoed c ++ (if t.rxSize = rxBufferSize then echoed '\n' else []) = body ++ ['\n'] := by
      by_cases full : t.rxSize = rxBufferSize
      · rw [if_pos full]
        exact ⟨echoed c ++ ['\r'], List.append_cons ..⟩
      · rw [if_neg full, ends.resolve_right fun last => full (size.trans last), List.append_nil]
        exact ⟨['\r'], rfl⟩
    obtain ⟨body, ended⟩ := ended
    rw [ended]
    rcases lines prints with rfl | ⟨body', rfl⟩
    · exact ⟨body, List.append_nil _⟩
    · exact ⟨body ++ ['\n'] ++ body', (List.append_assoc ..).symm⟩

end Receive

end Maskset.Shell
