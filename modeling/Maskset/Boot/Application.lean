import Maskset.Boot.Handover
import Maskset.Flash.Slots
import Maskset.Shell.Screen
import Maskset.Shell.Strings

/-!
# The application

`main` of the application and the commands of its shell over MCUboot's library, which is a
parameter, and a session at the console: what the typed characters make of the board, up to a
reboot. `application_runs` reads the session off the lines that were entered.
-/

namespace Maskset.Boot
set_option autoImplicit false

open Maskset.Logic Maskset.Flash
open Maskset.Shell (ShellContext Command shellBoot shellReceiveChar sections strings FollowsStrings)

def mcubootImageNumber : Nat := 1

structure BootSwapState where
  magic : BitVec 8
  swapType : BitVec 8
  copyDone : BitVec 8
  imageOk : BitVec 8

def bootloaderArea : Area := ⟨bootloader, by decide⟩

/-- The flash was used through calls of the slots only, all of them in range. -/
def OnSlots (d e : Device) : Prop := ∃ qs, Worked d qs e ∧ ∀ q ∈ qs, q.1 ≠ bootloaderArea

/-- The functions of the library that the application calls. They use the slots only, and read the trailer of
the area whose id they are given. -/
structure Bootutil where
  bootSetConfirmed : Device → Int × Device
  bootSetPending : Int → Device → Int × Device
  bootReadSwapStateById : BitVec 32 → Device → Int × BootSwapState × Device
  confirms : ∀ d, OnSlots d (bootSetConfirmed d).2
  pends : ∀ permanent d, OnSlots d (bootSetPending permanent d).2
  reads : ∀ id d, id.setWidth 8 ≠ flashAreaBootloader → OnSlots d (bootReadSwapStateById id d).2.2

/-- The entries of `s_shell_commands`. -/
inductive ShellCommand where
  | cliIdn
  | cliMagicNumberCheck
  | prvSwapImages
  | prvRebootCli
  | shellHelpHandler
deriving DecidableEq

namespace ShellCommand

def name : ShellCommand → List Char
  | cliIdn => "*IDN?".toList
  | cliMagicNumberCheck => "MAGIC?".toList
  | prvSwapImages => "swap_images".toList
  | prvRebootCli => "reboot".toList
  | shellHelpHandler => "help".toList

def help : ShellCommand → List Char
  | cliIdn => "Identity response".toList
  | cliMagicNumberCheck => "Check magic numbers".toList
  | prvSwapImages => "Swap images".toList
  | prvRebootCli => "Reboot System".toList
  | shellHelpHandler => "Lists all commands".toList

/-- The commands in the order of the table. -/
def all : List ShellCommand := [cliIdn, cliMagicNumberCheck, prvSwapImages, prvRebootCli, shellHelpHandler]

end ShellCommand

/-- The table as the shell sees it: `help` prints through the shell, the others do not touch it. -/
def shellCommands : List Command := Shell.sShellCommands fun name =>
  if name = ShellCommand.shellHelpHandler.name then
    Shell.printing fun s => s.shellHelpHandler (ShellCommand.all.map fun c => (c.name, c.help))
  else fun _ s => ⟨[], s.rxBuffer⟩

/-- The board with the application, and whether a reset was requested. -/
structure App where
  board : Board
  rebooted : Bool := false

namespace App

def exampleLog (a : App) (fmt : String) (args : List LogArg) : App := { a with board := a.board.exampleLog fmt args }

/-- The flash as a function of the library leaves it. -/
def withDevice (a : App) (device : Device) : App := { a with board := { a.board with device } }

/-- `NVIC_SystemReset`. -/
def prvReboot (a : App) : App := { a with rebooted := true }

def cliIdn (idn : String) (a : App) : App := a.exampleLog idn []

/-- The body of the loop over the slots. -/
def checkSlot (lib : Bootutil) (a : App) (slot : Nat) : App :=
  let (id, device) := flashAreaIdFromImageSlot slot a.board.device
  let (rc, state, device) := lib.bootReadSwapStateById id device
  let a := a.withDevice device
  if rc ≠ 0 then
    a.exampleLog "Failed to read swap state for slot %d: %d" [.num (BitVec.ofNat 32 slot), .num (BitVec.ofInt 32 rc)]
  else
    a.exampleLog "Slot %d: magic=0x%02x swap_type=%d copy_done=%d image_ok=%d"
      [.num (BitVec.ofNat 32 slot), .num (state.magic.setWidth 32), .num (state.swapType.setWidth 32),
        .num (state.copyDone.setWidth 32), .num (state.imageOk.setWidth 32)]

def cliMagicNumberCheck (lib : Bootutil) (a : App) : App :=
  (List.range (mcubootImageNumber + 1)).foldl (checkSlot lib) a

def prvSwapImages (lib : Bootutil) (a : App) : App :=
  let a := a.exampleLog "Triggering Image Swap" []
  let (result, device) := lib.bootSetPending 0 a.board.device
  let a := a.withDevice device
  if result = 0 then a.prvReboot else a.exampleLog "Swap failed with result: %l" [.num (BitVec.ofInt 32 result)]

/-- What a command does to the board. -/
def perform (lib : Bootutil) (idn : String) (a : App) : ShellCommand → App
  | .cliIdn => a.cliIdn idn
  | .cliMagicNumberCheck => a.cliMagicNumberCheck lib
  | .prvSwapImages => a.prvSwapImages lib
  | .prvRebootCli => a.prvReboot
  | .shellHelpHandler => a

/-- Commands one after the other; a reboot is the last one. -/
def performAll (lib : Bootutil) (idn : String) (a : App) (cs : List ShellCommand) : App :=
  cs.foldl (fun a c => if a.rebooted then a else a.perform lib idn c) a

end App

/-- `main` up to the call of `shell_processing_loop`. -/
def started (lib : Bootutil) (idn : String) (b : Board) : App :=
  let a : App := { board := b.prvEnableVfp.uartBoot }
  let a := a.cliIdn idn
  let (rc, device) := lib.bootSetConfirmed a.board.device
  let a := a.withDevice device
  let a := if rc ≠ 0 then
    a.exampleLog "boot_set_confirmed() failed with error code %d" [.num (BitVec.ofInt 32 rc)] else a
  let (_, device) := lib.bootSetConfirmed a.board.device
  let a := a.withDevice device
  a.exampleLog "==Main Application Booted==" []

structure Session where
  shell : ShellContext
  app : App

/-- The command that an event of the shell runs. -/
def ran : Shell.Event → Option ShellCommand
  | .run k _ => ShellCommand.all[k]?
  | _ => none

/-- A character at the console. In reset it is lost; `prv_reboot` does not return, so the shell is not looked at
any more. -/
def Session.receive (lib : Bootutil) (idn : String) (s : Session) (c : Char) : Option Session :=
  if s.app.rebooted then some s
  else do
    let shell ← shellReceiveChar shellCommands s.shell c
    let events := shell.results.drop s.shell.results.length
    pure ⟨shell, s.app.performAll lib idn (events.filterMap ran)⟩

/-- The application on what is typed. -/
def application (lib : Bootutil) (idn : String) (b : Board) (s : ShellContext) (stream : List Char) : Option Session :=
  stream.foldlM (Session.receive lib idn) ⟨shellBoot s, started lib idn b⟩

/-! ## What is run -/

/-- The command that a line names. -/
def commandOf (line : List Char) : Option ShellCommand :=
  (strings line).head?.bind fun name => ShellCommand.all.find? fun c => c.name = name

/-- The commands of the lines that were entered. -/
def commandsOf (stream : List Char) : List ShellCommand := (sections stream).filterMap commandOf

section Commands

variable {lib : Bootutil} {idn : String} {a : App} {c : ShellCommand} {cs cs' : List ShellCommand}

theorem performAll_append : a.performAll lib idn (cs ++ cs') = (a.performAll lib idn cs).performAll lib idn cs' :=
  List.foldl_append

theorem performAll_rebooted (rebooted : a.rebooted = true) : a.performAll lib idn cs = a := by
  induction cs with
  | nil => rfl
  | cons c cs ih =>
    rw [App.performAll, List.foldl_cons, if_pos rebooted]
    exact ih

theorem performAll_cons (running : a.rebooted = false) :
    a.performAll lib idn (c :: cs) = (a.perform lib idn c).performAll lib idn cs := by
  rw [App.performAll, List.foldl_cons, running]
  rfl

/-- **The shell runs the command that the line names.** -/
theorem ran_lineEvents (line : List Char) :
    (Shell.lineEvents shellCommands (strings line)).filterMap ran = (commandOf line).toList := by
  rw [commandOf]
  cases strings line with
  | nil => rfl
  | cons name args =>
    have search : (shellCommands.findIdx? fun command => command.command = name) =
        ShellCommand.all.findIdx? fun c => c.name = name := rfl
    rw [List.head?_cons, Option.bind_some, List.find?_eq_bind_findIdx?_getElem?, Shell.lineEvents, search]
    cases ShellCommand.all.findIdx? fun c => c.name = name with
    | none => rfl
    | some k =>
      rw [Option.bind_some]
      cases command : ShellCommand.all[k]? <;> simp [ran, command, List.filterMap_cons]

/-- The application is reset by the command. -/
def App.Reboots (lib : Bootutil) (a : App) (c : ShellCommand) : Prop :=
  a.rebooted = false ∧ (c = .prvRebootCli ∨
    c = .prvSwapImages ∧ (lib.bootSetPending 0 (a.exampleLog "Triggering Image Swap" []).board.device).1 = 0)

theorem checkSlots_rebooted (slots : List Nat) : (slots.foldl (App.checkSlot lib) a).rebooted = a.rebooted := by
  induction slots generalizing a with
  | nil => rfl
  | cons slot slots ih =>
    rw [List.foldl_cons, ih, App.checkSlot]
    dsimp only
    split <;> rfl

theorem perform_rebooted (running : a.rebooted = false) :
    (a.perform lib idn c).rebooted = true ↔ a.Reboots lib c := by
  cases c with
  | cliIdn => simp [App.perform, App.cliIdn, App.exampleLog, App.Reboots, running]
  | cliMagicNumberCheck =>
    simp [App.perform, App.cliMagicNumberCheck, checkSlots_rebooted, App.Reboots, running]
  | prvSwapImages =>
    rw [App.perform, App.prvSwapImages]
    dsimp only
    split
    · rename_i pending
      simp [App.prvReboot, App.Reboots, running, pending]
    · rename_i failed
      simpa [App.exampleLog, App.withDevice, App.Reboots, running] using failed
  | prvRebootCli => simp [App.perform, App.prvReboot, App.Reboots, running]
  | shellHelpHandler => simp [App.perform, App.Reboots, running]

/-- **The reboot of a list of commands.** -/
theorem performAll_rebooted_iff (running : a.rebooted = false) :
    (a.performAll lib idn cs).rebooted = true ↔
      ∃ before c behind, cs = before ++ c :: behind ∧ (a.performAll lib idn before).Reboots lib c := by
  constructor
  · intro rebooted
    induction cs generalizing a with
    | nil => exact absurd (running.symm.trans rebooted) Bool.noConfusion
    | cons c cs ih =>
      by_cases first : (a.perform lib idn c).rebooted = true
      · exact ⟨[], c, cs, rfl, (perform_rebooted running).1 first⟩
      · have rest : a.performAll lib idn (c :: cs) = (a.perform lib idn c).performAll lib idn cs :=
          performAll_cons running
        rw [rest] at rebooted
        obtain ⟨before, c', behind, rfl, reboots⟩ := ih (Bool.eq_false_of_not_eq_true first) rebooted
        exact ⟨c :: before, c', behind, rfl, (performAll_cons running).symm ▸ reboots⟩
  · rintro ⟨before, c, behind, rfl, reboots⟩
    have reset := (@perform_rebooted lib idn _ c reboots.1).2 reboots
    rw [performAll_append, performAll_cons reboots.1, performAll_rebooted reset]
    exact reset

end Commands

/-! ## The flash -/

namespace OnSlots

variable {d e f : Device}

theorem refl (d : Device) : OnSlots d d := ⟨[], .start, by simp⟩

theorem log (fmt : String) (args : List LogArg) (slots : OnSlots d e) : OnSlots d (e.observe [.log fmt args]) := by
  obtain ⟨qs, worked, others⟩ := slots
  exact ⟨qs, worked.log fmt args, others⟩

theorem trans (first : OnSlots d e) (second : OnSlots e f) : OnSlots d f := by
  obtain ⟨qs, worked, others⟩ := first
  obtain ⟨qs', worked', others'⟩ := second
  refine ⟨qs ++ qs', worked.trans worked', ?_⟩
  intro q within
  exact (List.mem_append.1 within).elim (others q) (others' q)

/-- The bootloader is as it was. -/
theorem kept (slots : OnSlots d e) : contents e bootloaderArea = contents d bootloaderArea := by
  obtain ⟨qs, worked, others⟩ := slots
  exact worked.untouched others

end OnSlots

section Flash

variable {lib : Bootutil} {idn : String} {a : App} {d : Device}

/-- No slot has the id of the bootloader. -/
theorem slotId_ne (slot : Int) (d : Device) : (flashAreaIdFromImageSlot slot d).1.setWidth 8 ≠ flashAreaBootloader := by
  intro same
  have opened : prvLookupFlashArea ((flashAreaIdFromImageSlot slot d).1.setWidth 8) = some bootloader :=
    prvLookup_iff.2 ⟨bootloaderArea.2, same.symm⟩
  rw [flashAreaIdFromImageSlot, slot_lookup] at opened
  obtain ⟨-, ⟨-, other⟩ | ⟨-, other⟩⟩ := slotArea_cases opened
  · cases other
  · cases other

theorem onSlots_checkSlot (slots : OnSlots d a.board.device) (slot : Nat) :
    OnSlots d (a.checkSlot lib slot).board.device := by
  have named := slot_device 0 slot a.board.device
  have looked : OnSlots d (flashAreaIdFromImageSlot slot a.board.device).2 := by
    rw [flashAreaIdFromImageSlot, named]
    split
    · exact slots
    · exact slots.log _ _
  have read := looked.trans (lib.reads (flashAreaIdFromImageSlot slot a.board.device).1 _ (slotId_ne slot _))
  rw [App.checkSlot]
  dsimp only
  split
  · exact read.log _ _
  · exact read.log _ _

theorem onSlots_perform (slots : OnSlots d a.board.device) (c : ShellCommand) :
    OnSlots d (a.perform lib idn c).board.device := by
  cases c with
  | cliIdn => exact slots.log idn []
  | cliMagicNumberCheck =>
    apply List.foldlRecOn (motive := fun a : App => OnSlots d a.board.device) _ (App.checkSlot lib) slots
    exact fun _ slots slot _ => onSlots_checkSlot slots slot
  | prvSwapImages =>
    have pended := (slots.log "Triggering Image Swap" []).trans (lib.pends 0 _)
    rw [App.perform, App.prvSwapImages]
    dsimp only
    split
    · exact pended
    · exact pended.log _ _
  | prvRebootCli => exact slots
  | shellHelpHandler => exact slots

theorem onSlots_performAll (slots : OnSlots d a.board.device) (cs : List ShellCommand) :
    OnSlots d (a.performAll lib idn cs).board.device := by
  apply List.foldlRecOn (motive := fun a : App => OnSlots d a.board.device) cs _ slots
  intro a slots c _
  split
  · exact slots
  · exact onSlots_perform slots c

theorem onSlots_started (lib : Bootutil) (idn : String) (b : Board) :
    OnSlots b.device (started lib idn b).board.device := by
  have greeted : OnSlots b.device _ := (OnSlots.refl b.device).log idn []
  have confirmed := greeted.trans (lib.confirms _)
  rw [started]
  dsimp only
  split
  · exact ((confirmed.log _ _).trans (lib.confirms _)).log _ _
  · exact (confirmed.trans (lib.confirms _)).log _ _

theorem started_rebooted (lib : Bootutil) (idn : String) (b : Board) : (started lib idn b).rebooted = false := by
  rw [started]
  dsimp only
  split <;> rfl

end Flash

/-! ## A session -/

/-- What holds after each character of the stream, as long as the application is not reset. -/
structure Runs (lib : Bootutil) (idn : String) (b : Board) (s : ShellContext) (stream : List Char) (t : Session) :
    Prop where
  app : t.app = (started lib idn b).performAll lib idn (commandsOf stream)
  shell : t.app.rebooted = false → FollowsStrings shellCommands s stream t.shell

section Run

variable {lib : Bootutil} {idn : String} {b : Board} {s : ShellContext} {stream : List Char} {c : Char} {t : Session}

theorem commandsOf_snoc {more : List (List Char)} (grown : sections (stream ++ [c]) = sections stream ++ more) :
    commandsOf (stream ++ [c]) = commandsOf stream ++ more.filterMap commandOf := by
  rw [commandsOf, grown, List.filterMap_append]
  rfl

/-- The events of lines run the commands of the lines. -/
theorem ran_lines (lines : List (List Char)) :
    (lines.flatMap fun line => Shell.lineEvents shellCommands (strings line)).filterMap ran =
      lines.filterMap commandOf := by
  rw [List.filterMap_flatMap, List.filterMap_eq_flatMap_toList]
  apply List.flatMap_congr
  exact fun line _ => ran_lineEvents line

/-- One more character: in reset it changes nothing, otherwise the shell runs the command of the line it ends. -/
theorem Runs.receive (runs : Runs lib idn b s stream t) (c : Char) :
    ∃ u, t.receive lib idn c = some u ∧ Runs lib idn b s (stream ++ [c]) u := by
  rw [Session.receive]
  by_cases reset : t.app.rebooted = true
  · obtain ⟨more, grown⟩ := Shell.sections_snoc stream c
    refine ⟨t, if_pos reset, ?_, ?_⟩
    · rw [commandsOf_snoc grown, performAll_append, ← runs.app, performAll_rebooted reset]
    · intro running
      exact absurd (running.symm.trans reset) Bool.noConfusion
  · have follows := runs.shell (Bool.eq_false_of_not_eq_true reset)
    obtain ⟨shell, more, step, follows', grown, results⟩ := follows.receive c
    rw [if_neg reset, step]
    refine ⟨_, rfl, ?_, ?_⟩
    · dsimp only
      rw [results, List.drop_left, ran_lines, commandsOf_snoc grown, performAll_append, ← runs.app]
    · exact fun _ => follows'

end Run

/-- **What a session makes of the board**, for every library that uses the slots only, by calls in range, and
whatever is typed: the session goes through, and the board is what the commands of the entered lines make of it
in order, up to the first one that resets the application: a `reboot`, or a `swap_images` whose request the
library accepts in the state that the earlier commands have left. The bootloader is as it was. -/
theorem application_runs (lib : Bootutil) (idn : String) (b : Board) (s : ShellContext) (stream : List Char) :
    ∃ t, application lib idn b s stream = some t ∧
      t.app = (started lib idn b).performAll lib idn (commandsOf stream) ∧
      (t.app.rebooted = true ↔ ∃ before c behind, commandsOf stream = before ++ c :: behind ∧
        ((started lib idn b).performAll lib idn before).Reboots lib c) ∧
      contents t.app.board.device bootloaderArea = contents b.device bootloaderArea := by
  have start : Runs lib idn b s [] ⟨shellBoot s, started lib idn b⟩ :=
    ⟨rfl, fun _ => Shell.followsStrings_boot shellCommands s⟩
  have able : ∀ c ∈ stream, True := fun _ _ => trivial
  obtain ⟨t, run, runs⟩ : ∃ t, application lib idn b s stream = some t ∧ Runs lib idn b s stream t :=
    Machine.total start (fun _ _ c runs _ => runs.receive c) stream able
  refine ⟨t, run, runs.app, ?_, ?_⟩
  · rw [runs.app]
    exact performAll_rebooted_iff (started_rebooted lib idn b)
  · rw [runs.app]
    exact (onSlots_performAll (onSlots_started lib idn b) _).kept

/-! ## Slots without a trailer -/

/-- The reads of a trailer: the magic number, the swap type and the two flags. -/
def trailer (a : Area) : List (Area × Call) :=
  [(a, .read (a.1.faSize - 16) 16), (a, .read (a.1.faSize - 40) 1), (a, .read (a.1.faSize - 32) 1),
    (a, .read (a.1.faSize - 24) 1)]

theorem trailer_read {a : Area} (slot : a = primary ∨ a = secondary) : Reads (trailer a) := by
  intro q within
  simp only [trailer, List.mem_cons, List.not_mem_nil, or_false] at within
  rcases slot with rfl | rfl
  · rcases within with rfl | rfl | rfl | rfl <;> exact ⟨by decide, _, _, rfl⟩
  · rcases within with rfl | rfl | rfl | rfl <;> exact ⟨by decide, _, _, rfl⟩

theorem onSlots_trailer {a : Area} (slot : a = primary ∨ a = secondary) (d : Device) :
    OnSlots d ((trailer a).foldl after d) := by
  refine ⟨trailer a, reads_worked (trailer_read slot) d, ?_⟩
  intro q within
  have own : q.1 = a := by
    simp only [trailer, List.mem_cons, List.not_mem_nil, or_false] at within
    rcases within with rfl | rfl | rfl | rfl <;> rfl
  rw [own]
  rcases slot with rfl | rfl
  · decide
  · decide

/-- An area that is not the bootloader's is a slot. -/
theorem slot_of_faId (a : Area) (other : a.1.faId ≠ flashAreaBootloader) : a = primary ∨ a = secondary := by
  have area := a.2
  simp only [sFlashAreas, List.mem_cons, List.not_mem_nil, or_false] at area
  rcases area with same | same | same
  · exact absurd (congrArg FlashArea.faId same) other
  · exact .inl (Subtype.ext same)
  · exact .inr (Subtype.ext same)

/-- The library on erased trailers: the image counts as confirmed, and no field is set. A request to swap is
refused here, and so is an id that cannot be opened. -/
def erasedTrailers : Bootutil where
  bootSetConfirmed d := (0, (trailer primary).foldl after d)
  bootSetPending _ d := (1, (trailer secondary).foldl after d)
  bootReadSwapStateById id d :=
    match opened : flashAreaOpen (id.setWidth 8) with
    | (0, some fa) => (0, ⟨3, 1, 3, 3⟩, (trailer ⟨fa, (flashAreaOpen_iff.1 opened).1⟩).foldl after d)
    | _ => (1, ⟨0, 0, 0, 0⟩, d)
  confirms := onSlots_trailer (.inl rfl)
  pends _ := onSlots_trailer (.inr rfl)
  reads id d other := by
    split
    · rename_i fa opened
      obtain ⟨area, same⟩ := flashAreaOpen_iff.1 opened
      exact onSlots_trailer (slot_of_faId ⟨fa, area⟩ (same ▸ other)) d
    · exact .refl d

/-- What is typed behind the reboot is lost. -/
theorem application_runs_reboot :
    ∃ t, application erasedTrailers "Maskset" ⟨blank, Console.resetDriver, 0, 0⟩ Shell.unbooted
        "MAGIC?\nreboot now\nswap_images\n".toList = some t ∧ t.app.rebooted = true ∧
      contents t.app.board.device bootloaderArea = contents blank bootloaderArea := by
  obtain ⟨t, run, -, reboots, kept⟩ := application_runs erasedTrailers "Maskset" ⟨blank, Console.resetDriver, 0, 0⟩
    Shell.unbooted "MAGIC?\nreboot now\nswap_images\n".toList
  refine ⟨t, run, reboots.2 ⟨[.cliMagicNumberCheck], .prvRebootCli, [.prvSwapImages], ?_, ?_, ?_⟩, kept⟩
  · decide
  · rfl
  · exact .inl rfl

end Maskset.Boot
