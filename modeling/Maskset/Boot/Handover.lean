import Maskset.Console.Loop
import Maskset.Flash.Client

/-!
# The bootloader

`main` and `do_boot` of the bootloader around `boot_go`, which is MCUboot's and known here by
its calls of the flash areas only. `bootloader_starts` says what is started: the words that
the calls on the primary slot, and no others, have left in the vector table.
-/

namespace Maskset.Boot
set_option autoImplicit false

open Maskset.Logic Maskset.Logic.Nor Maskset.Flash

/-- `struct boot_rsp`, with the field of the header it points to. -/
structure BootRsp where
  brImageOff : BitVec 32
  ihHdrSize : BitVec 16

/-- What the bootloader changes: the flash with its log, the UART, and the values it writes to two registers of
the processor. -/
structure Board where
  device : Device
  driver : Uart.Driver
  cpacr : BitVec 32
  vtor : BitVec 32

/-- Where `main` goes: into the application, with its stack pointer, or into the shell. -/
inductive Next where
  | application (pc sp : BitVec 32)
  | shell
deriving DecidableEq

namespace Board

def exampleLog (b : Board) (fmt : String) (args : List LogArg) : Board :=
  { b with device := b.device.observe [.log fmt args] }

def prvEnableVfp (b : Board) : Board := { b with cpacr := b.cpacr ||| 0xf#32 <<< 20 }

def uartBoot (b : Board) : Board := { b with driver := b.driver.uartBoot }

end Board

/-- The address of the vector table: the internal flash starts at 0. -/
def vectorTable (rsp : BootRsp) : Addr := 0x0#32 + rsp.brImageOff + rsp.ihHdrSize.setWidth 32

/-- `start_app` does not return. -/
def doBoot (rsp : BootRsp) (b : Board) : Next × Board :=
  let b := b.exampleLog "Starting Main Application" []
  let b := b.exampleLog "  Image Start Offset: 0x%x" [.num rsp.brImageOff]
  let appSp := wordAt b.device.flash (vectorTable rsp)
  let appStart := wordAt b.device.flash (vectorTable rsp + 4)
  let b := b.exampleLog "  Vector Table Start Address: 0x%x. PC=0x%x, SP=0x%x"
    [.num (vectorTable rsp), .num appStart, .num appSp]
  let b := { b with vtor := vectorTable rsp &&& 0xFFFFFFF8#32 }
  (.application appStart appSp, b)

def banner : List String := [
  "\n\n___  ________ _   _ _                 _   ",
  "|  \\/  /  __ \\ | | | |               | |  ",
  "| .  . | /  \\/ | | | |__   ___   ___ | |_ ",
  "| |\\/| | |   | | | | '_ \\ / _ \\ / _ \\| __|",
  "| |  | | \\__/\\ |_| | |_) | (_) | (_) | |_ ",
  "\\_|  |_/\\____/\\___/|_.__/ \\___/ \\___/ \\__|",
  "==Starting Bootloader=="]

/-- `main` up to the call of `boot_go`. -/
def greeted (b : Board) : Board := banner.foldl (fun b line => b.exampleLog line []) b.prvEnableVfp.uartBoot

def main (bootGo : Device → Int × BootRsp × Device) (b : Board) : Next × Board :=
  let b := greeted b
  let (rv, rsp, device) := bootGo b.device
  let b := { b with device }
  if rv = 0 then doBoot rsp b
  else (.shell, b.exampleLog "No bootable image found. Falling into Bootloader CLI:" [])

/-! ## What is started -/

/-- The vector table of the response is in the primary slot. -/
structure InPrimary (rsp : BootRsp) : Prop where
  behindStart : primary.1.faOff.toNat ≤ rsp.brImageOff.toNat
  beforeEnd : rsp.brImageOff.toNat + rsp.ihHdrSize.toNat + 8 ≤ primary.1.faOff.toNat + primary.1.faSize.toNat

/-- MCUboot as the bootloader relies on it: it uses the flash through calls of the areas, and what it finds
is in the primary slot. -/
structure Mcuboot where
  bootGo : Device → Int × BootRsp × Device
  calls : Device → List (Area × Call)
  worked : ∀ d, Worked d (calls d) (bootGo d).2.2
  found : ∀ d, (bootGo d).1 = 0 → InPrimary (bootGo d).2.1

/-- The word at an offset of a region. -/
def word {size : Nat} (r : Region size) (k : Nat) : BitVec 32 :=
  wordAt (fun b => r.get b.toNat) (BitVec.ofNat 32 k)

section Words

variable {a : Area} {d : Device} {k : Nat} {rsp : BootRsp} {b : Board}

/-- A word of an area, by its offset. -/
theorem wordAt_contents (fits : k + 4 ≤ a.1.faSize.toNat) :
    wordAt d.flash (a.1.faOff + BitVec.ofNat 32 k) = word (contents d a) k := by
  have small := a.1.faSize.isLt
  apply eq_of_byteOf
  intro j lane
  have offset : BitVec.ofNat 32 k + BitVec.ofNat 32 j = BitVec.ofNat 32 (k + j) := (BitVec.ofNat_add ..).symm
  have value : (BitVec.ofNat 32 (k + j)).toNat = k + j := BitVec.toNat_ofNat .. ▸ Nat.mod_eq_of_lt (by omega)
  have inside : k + j < a.1.faSize.toNat := by omega
  rw [word, byteOf_wordAt lane, byteOf_wordAt lane, BitVec.add_assoc, offset, value, Region.get, dif_pos inside]
  rfl

/-- The vector table, by its offset in the slot. -/
theorem vectorTable_eq (inside : InPrimary rsp) :
    ∃ k, k + 8 ≤ primary.1.faSize.toNat ∧ vectorTable rsp = primary.1.faOff + BitVec.ofNat 32 k := by
  obtain ⟨behindStart, beforeEnd⟩ := inside
  have slot : primary.1.faOff.toNat = 0x8000 ∧ primary.1.faSize.toNat = 0x20000 := by decide
  refine ⟨rsp.brImageOff.toNat + rsp.ihHdrSize.toNat - primary.1.faOff.toNat, by omega, ?_⟩
  have header := rsp.ihHdrSize.isLt
  apply BitVec.eq_of_toNat_eq
  rw [vectorTable, BitVec.zero_add, BitVec.toNat_add, BitVec.toNat_add, BitVec.toNat_setWidth, BitVec.toNat_ofNat]
  omega

/-- The low bits that the mask clears are those of an aligned address. -/
theorem and_mask (x : BitVec 32) (aligned : 8 ∣ x.toNat) : x &&& 0xFFFFFFF8#32 = x := by
  obtain ⟨m, multiple⟩ := aligned
  have mask : ∀ i < 32, (0xFFFFFFF8#32).getLsbD i = decide (3 ≤ i) := by decide
  apply BitVec.eq_of_getLsbD_eq
  intro i inWord
  have bit : x.getLsbD i = (decide (i ≥ 3) && m.testBit (i - 3)) := by
    rw [BitVec.getLsbD, multiple]
    exact @Nat.testBit_two_pow_mul 3 m i
  rw [BitVec.getLsbD_and, mask i inWord, bit]
  cases decide (3 ≤ i) <;> simp

end Words

/-- The words of the vector table are the application that is started. -/
def Starts (r : Region primary.1.faSize.toNat) (rsp : BootRsp) (next : Next) : Prop :=
  ∃ k, k + 8 ≤ primary.1.faSize.toNat ∧ vectorTable rsp = primary.1.faOff + BitVec.ofNat 32 k ∧
    next = .application (word r (k + 4)) (word r k)

section Main

variable {b : Board} {rsp : BootRsp} {bootGo : Device → Int × BootRsp × Device}

theorem doBoot_starts (inside : InPrimary rsp) : Starts (contents b.device primary) rsp (doBoot rsp b).1 := by
  obtain ⟨k, fits, table⟩ := vectorTable_eq inside
  refine ⟨k, fits, table, ?_⟩
  have four : vectorTable rsp + 4 = primary.1.faOff + BitVec.ofNat 32 (k + 4) := by
    rw [table, BitVec.add_assoc, BitVec.ofNat_add]
    rfl
  have sp := @wordAt_contents primary b.device k (Nat.le_trans (Nat.add_le_add_left (by decide) k) fits)
  have pc := @wordAt_contents primary b.device (k + 4) fits
  rw [← sp, ← pc]
  change Next.application (wordAt b.device.flash (vectorTable rsp + 4)) (wordAt b.device.flash (vectorTable rsp)) = _
  rw [four, table]

/-- Up to the call of `boot_go` the flash is not used. -/
theorem greeted_worked (b : Board) : Worked b.device [] (greeted b).device := Worked.logs banner

/-- The two ways through `main`. -/
theorem main_eq (bootGo : Device → Int × BootRsp × Device) (b : Board) :
    main bootGo b =
      if (bootGo (greeted b).device).1 = 0 then
        doBoot (bootGo (greeted b).device).2.1 { greeted b with device := (bootGo (greeted b).device).2.2 }
      else (.shell, Board.exampleLog { greeted b with device := (bootGo (greeted b).device).2.2 }
        "No bootable image found. Falling into Bootloader CLI:" []) := rfl

end Main

/-- **What the bootloader starts**, after any code that uses the flash through calls in range, and with those
that MCUboot makes itself: if an image was found, the application whose stack pointer and entry are the
first two words of the vector table as the calls on the primary slot alone have left them, with the
processor's vector table there; otherwise the shell. In both cases the slot holds what these calls have
left, and the floating point unit and the console are on. -/
theorem bootloader_starts (m : Mcuboot) {d : Device} {qs : List (Area × Call)} (b : Board)
    (earlier : Worked d qs b.device) :
    ∃ region answers next b', main m.bootGo b = (next, b') ∧
      Service.serve Region.call (contents d primary) (Service.about primary (qs ++ m.calls (greeted b).device)) =
        some (region, answers) ∧
      contents b'.device primary = region ∧ Uart.Configured b'.driver ∧ b'.cpacr = b.cpacr ||| 0xf#32 <<< 20 ∧
      if (m.bootGo (greeted b).device).1 = 0 then
        let rsp := (m.bootGo (greeted b).device).2.1
        Starts region rsp next ∧ (8 ∣ (vectorTable rsp).toNat → b'.vtor = vectorTable rsp)
      else next = .shell ∧ b'.vtor = b.vtor := by
  have reached := (earlier.trans (greeted_worked b)).trans (m.worked (greeted b).device)
  rw [List.append_nil] at reached
  obtain ⟨answers, served⟩ := reached.area primary
  have configured : Uart.Configured (greeted b).driver := Uart.uartBoot_configured b.driver
  have run := main_eq m.bootGo b
  by_cases image : (m.bootGo (greeted b).device).1 = 0
  · rw [if_pos image] at run
    refine ⟨_, answers, _, _, run, served, rfl, configured, rfl, ?_⟩
    rw [if_pos image]
    exact ⟨doBoot_starts (m.found (greeted b).device image), fun aligned => and_mask _ aligned⟩
  · rw [if_neg image] at run
    refine ⟨_, answers, _, _, run, served, rfl, configured, rfl, ?_⟩
    rw [if_neg image]
    exact ⟨rfl, rfl⟩

/-! ## Looking for the magic number -/

/-- The reads of the image headers. -/
def headers : List (Area × Call) := [(primary, .read 0 32), (secondary, .read 0 32)]

def imageMagic : BitVec 32 := 0x96f3b83d

theorem read_returns (a : Area) (off len : BitVec 32) (d : Device) :
    ∃ t answer, flashCalls d (a, .read off len) = some (t, answer) := by
  obtain ⟨rc, dst, t, call⟩ : ∃ rc dst t, flashAreaRead a.1 off len d = (.returned rc, dst, t) := by
    rw [flashAreaRead]
    dsimp only
    split
    · exact ⟨_, _, _, rfl⟩
    split
    · exact ⟨_, _, _, rfl⟩
    · exact ⟨_, _, _, rfl⟩
  rw [flashCalls, perform_read call]
  exact ⟨_, _, rfl⟩

/-- The device after a call that returns. -/
def after (d : Device) (q : Area × Call) : Device := ((flashCalls d q).map Prod.fst).getD d

/-- Reads in range. -/
def Reads (qs : List (Area × Call)) : Prop := ∀ q ∈ qs, InRange q.1.1 q.2 ∧ ∃ off len, q.2 = .read off len

theorem reads_worked {qs : List (Area × Call)} (reads : Reads qs) (d : Device) : Worked d qs (qs.foldl after d) := by
  induction qs using List.reverseRecOn with
  | nil => exact .start
  | append_singleton qs q ih =>
    have before := ih fun q within => reads q (List.mem_append_left _ within)
    obtain ⟨inRange, off, len, read⟩ := reads q (by simp)
    obtain ⟨t, answer, served⟩ := read_returns q.1 off len (qs.foldl after d)
    rw [← read] at served
    rw [List.foldl_append, List.foldl_cons, List.foldl_nil, after, served]
    exact before.call inRange served

theorem headers_read : Reads headers := by
  intro q within
  simp only [headers, List.mem_cons, List.not_mem_nil, or_false] at within
  rcases within with rfl | rfl
  · exact ⟨by decide, _, _, rfl⟩
  · exact ⟨by decide, _, _, rfl⟩

/-- The part of MCUboot that looks for the headers: an image is where the magic number is. -/
def byMagic : Mcuboot where
  bootGo d :=
    (if wordAt d.flash 0x8000 = imageMagic then 0 else -1,
      { brImageOff := 0x8000, ihHdrSize := (wordAt d.flash 0x8008).setWidth 16 }, headers.foldl after d)
  calls _ := headers
  worked := reads_worked headers_read
  found d _ := by
    have header := ((wordAt d.flash 0x8008).setWidth 16).isLt
    have slot : primary.1.faOff.toNat = 0x8000 ∧ primary.1.faSize.toNat = 0x20000 := by decide
    constructor
    · exact Nat.le_of_eq slot.1
    · change 0x8000 + ((wordAt d.flash 0x8008).setWidth 16).toNat + 8 ≤ _
      omega

/-! ## A slot with an image -/

/-- The bytes one after the other. -/
def bytes (l : List Byte) : Nat → Byte := fun i => l.getD i 0xff

/-- The header: the magic number, no load address, 512 bytes of header and no protected TLVs; the size of the
image, no flags, version 1.0.0 and the padding. -/
def imageHeader : List Byte :=
  [0x3d, 0xb8, 0xf3, 0x96, 0, 0, 0, 0, 0, 2, 0, 0, 0, 4, 0, 0, 0, 0, 0, 0, 1, 0, 0, 0, 0, 0, 0, 0, 0, 0, 0, 0]

/-- The stack pointer and the entry. -/
def imageVectors : List Byte := [0, 0x20, 0, 0x20, 1, 0x84, 0, 0]

/-- An image is put into the primary slot, and something else into the secondary one. -/
def image : List (Area × Call) :=
  [(primary, .erase 0 4096), (primary, .write 0 (bytes imageHeader) 32), (secondary, .write 0x200 (fun _ => 0) 4),
    (primary, .write 0x200 (bytes imageVectors) 8)]

/-- What the calls leave in the header. -/
theorem image_worked :
    ∃ d, Worked blank image d ∧ wordAt d.flash 0x8000 = imageMagic ∧ wordAt d.flash 0x8008 = 0x200 := by
  have inRange : ∀ q ∈ image, InRange q.1.1 q.2 := by decide
  have served : (regions.serve (contents blank) image).map (fun t => (word (t.1 primary) 0, word (t.1 primary) 8)) =
      some (imageMagic, 0x200) := by decide +kernel
  rw [← flash_refines.serve inRange blank, Option.map_map] at served
  obtain ⟨⟨d, as⟩, run, words⟩ := Option.map_eq_some_iff.1 served
  obtain ⟨magic, size⟩ := Prod.mk.inj words
  have header (k : Nat) (fits : k + 4 ≤ primary.1.faSize.toNat) := @wordAt_contents primary d k fits
  exact ⟨d, .of_serve inRange run, (header 0 (by decide)).trans magic, (header 8 (by decide)).trans size⟩

/-- What the calls leave in the vector table. -/
theorem image_vectors {region : Region primary.1.faSize.toNat} {answers : List Answer}
    (served : Service.serve Region.call (contents blank primary) (Service.about primary (image ++ headers)) =
      some (region, answers)) : word region 0x204 = 0x8401 ∧ word region 0x200 = 0x20002000 := by
  have words : (Service.serve Region.call (contents blank primary) (Service.about primary (image ++ headers))).map
      (fun t => (word t.1 0x204, word t.1 0x200)) = some (0x8401, 0x20002000) := by decide +kernel
  rw [served] at words
  exact Prod.mk.inj (Option.some.inj words)

/-- Where the vector table of the image is. -/
theorem image_table {k : Nat} (fits : k + 8 ≤ primary.1.faSize.toNat)
    (table : vectorTable ⟨0x8000, 0x200⟩ = primary.1.faOff + BitVec.ofNat 32 k) : k = 0x200 := by
  have address := congrArg BitVec.toNat table
  rw [place primary (by omega)] at address
  exact Nat.add_left_cancel address.symm

/-- From erased slots nothing is started; from a slot with an image the application is entered, whose stack pointer
and entry the earlier calls have written. -/
theorem bootloader_starts_slots :
    (∃ b', main byMagic.bootGo ⟨blank, Console.resetDriver, 0, 0⟩ = (.shell, b') ∧ b'.vtor = 0 ∧
      contents b'.device primary = contents blank primary) ∧
    ∃ d b', Worked blank image d ∧
      main byMagic.bootGo ⟨d, Console.resetDriver, 3, 0x1000⟩ = (.application 0x8401 0x20002000, b') ∧
      b'.vtor = 0x8200 ∧ b'.cpacr = 0xf00003 := by
  constructor
  · obtain ⟨region, answers, next, b', run, served, slot, -, -, way⟩ :=
      bootloader_starts byMagic ⟨blank, Console.resetDriver, 0, 0⟩ .start
    have none : ¬ (byMagic.bootGo (greeted ⟨blank, Console.resetDriver, 0, 0⟩).device).1 = 0 := by decide
    rw [if_neg none] at way
    obtain ⟨rfl, vtor⟩ := way
    have unread : Service.serve Region.call (contents blank primary) [.read 0 32] =
        some (contents blank primary, [⟨0, (List.range 32).map fun i => (contents blank primary).get (0 + i)⟩]) := rfl
    have kept : region = contents blank primary :=
      (Prod.mk.inj (Option.some.inj (served.symm.trans unread))).1
    exact ⟨b', run, vtor, slot.trans kept⟩
  · obtain ⟨d, worked, magic, size⟩ := image_worked
    obtain ⟨region, answers, next, b', run, served, -, -, cpacr, way⟩ :=
      bootloader_starts byMagic ⟨d, Console.resetDriver, 3, 0x1000⟩ worked
    have found : (byMagic.bootGo (greeted ⟨d, Console.resetDriver, 3, 0x1000⟩).device).1 = 0 := if_pos magic
    have rsp : (byMagic.bootGo (greeted ⟨d, Console.resetDriver, 3, 0x1000⟩).device).2.1 = ⟨0x8000, 0x200⟩ :=
      congrArg (fun size : BitVec 32 => BootRsp.mk 0x8000 (size.setWidth 16)) size
    rw [if_pos found, rsp] at way
    obtain ⟨⟨k, fits, table, rfl⟩, vtor⟩ := way
    obtain rfl := image_table fits table
    obtain ⟨pc, sp⟩ := image_vectors served
    rw [pc, sp] at run
    have vfp : 3#32 ||| 0xf#32 <<< 20 = 0xf00003 := by decide
    exact ⟨d, b', worked, run, vtor (by decide), cpacr.trans vfp⟩

end Maskset.Boot
