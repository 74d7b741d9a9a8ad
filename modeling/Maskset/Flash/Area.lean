import Maskset.Flash.Nvmc

/-!
# Flash areas

`mcuboot_port.c`: the areas and their read, write and erase, in 32-bit arithmetic. A call
returns its code, or is trapped by a failed `assert`; a log line is its format and its
arguments, `__func__` first.
-/

namespace Maskset.Flash
set_option autoImplicit false

open Maskset.Logic.Nor

def flashDeviceInternalFlash : BitVec 8 := 0

def flashAreaBootloader : BitVec 8 := 0
def flashAreaImagePrimary (i : Int) : BitVec 8 := if i = 0 then 1 else 255
def flashAreaImageSecondary (i : Int) : BitVec 8 := if i = 0 then 2 else 255

structure FlashArea where
  faId : BitVec 8
  faDeviceId : BitVec 8
  faOff : BitVec 32
  faSize : BitVec 32
deriving DecidableEq

def bootloaderStartAddress : BitVec 32 := 0
def bootloaderSize : BitVec 32 := 32 * 1024
def applicationPrimaryStartAddress : BitVec 32 := 32 * 1024
def applicationSize : BitVec 32 := 128 * 1024
def applicationSecondaryStartAddress : BitVec 32 := applicationPrimaryStartAddress + applicationSize

def bootloader : FlashArea :=
  ⟨flashAreaBootloader, flashDeviceInternalFlash, bootloaderStartAddress, bootloaderSize⟩

def primaryImg0 : FlashArea :=
  ⟨flashAreaImagePrimary 0, flashDeviceInternalFlash, applicationPrimaryStartAddress, applicationSize⟩

def secondaryImg0 : FlashArea :=
  ⟨flashAreaImageSecondary 0, flashDeviceInternalFlash, applicationSecondaryStartAddress, applicationSize⟩

def sFlashAreas : List FlashArea := [bootloader, primaryImg0, secondaryImg0]

inductive Outcome where
  | returned (rc : Int)
  | trapped
deriving DecidableEq

def Device.logErr (d : Device) (fmt : String) (args : List LogArg) : Device :=
  d.observe [.log ("[ERR] " ++ fmt) args]

def Device.logDbg (d : Device) (fmt : String) (args : List LogArg) : Device :=
  d.observe [.log ("[DBG] " ++ fmt) args]

/-- `memcpy` from flash. -/
def Device.memcpy (d : Device) (addr : Addr) (len : BitVec 32) : List Byte × Device :=
  let addrs := (List.range len.toNat).map fun i => addr + BitVec.ofNat 32 i
  (addrs.map d.flash, d.observe (addrs.map .copy))

/-- The outcome, the bytes copied to `dst` and the device. -/
def flashAreaRead (fa : FlashArea) (off len : BitVec 32) (d : Device) : Outcome × List Byte × Device :=
  if fa.faDeviceId ≠ flashDeviceInternalFlash then (.returned (-1), [], d)
  else
    let endOffset := off + len
    if endOffset > fa.faSize then
      (.returned (-1), [], d.logErr "%s: Out of Bounds (0x%x vs 0x%x)"
        [.str "flash_area_read", .num endOffset, .num fa.faSize])
    else
      let addr := fa.faOff + off
      let (dst, d) := d.memcpy addr len
      (.returned 0, dst, d)

def flashAreaWrite (fa : FlashArea) (off : BitVec 32) (src : Nat → Byte) (len : BitVec 32) (d : Device) :
    Outcome × Device :=
  if fa.faDeviceId ≠ flashDeviceInternalFlash then (.returned (-1), d)
  else
    let endOffset := off + len
    if endOffset > fa.faSize then
      (.returned (-1), d.logErr "%s: Out of Bounds (0x%x vs 0x%x)"
        [.str "flash_area_write", .num endOffset, .num fa.faSize])
    else
      let addr := fa.faOff + off
      let d := d.logDbg "%s: Addr: 0x%08x Length: %d" [.str "flash_area_write", .num addr, .num len]
      let d := exampleInternalFlashWrite addr src len d
      -- VALIDATE_PROGRAM_OP
      if ∀ i < len.toNat, d.flash (addr + BitVec.ofNat 32 i) = src i then (.returned 0, d)
      else (.trapped, d.logErr "%s: Program Failed" [.str "flash_area_write"])

/-- The erase loop from `i` on, with at most `n` iterations. -/
def eraseLoop (startAddr len : BitVec 32) : Nat → BitVec 32 → Device → Device
  | 0, _, d => d
  | n + 1, i, d =>
    if i < len then
      eraseLoop startAddr len n (i + BitVec.ofNat 32 flashSectorSize)
        (exampleInternalFlashEraseSector (startAddr + i) d)
    else d

def flashAreaErase (fa : FlashArea) (off len : BitVec 32) (d : Device) : Outcome × Device :=
  if fa.faDeviceId ≠ flashDeviceInternalFlash then (.returned (-1), d)
  else if len.toNat % flashSectorSize ≠ 0 ∨ off.toNat % flashSectorSize ≠ 0 then
    (.returned (-1), d.logErr "%s: Not aligned on sector Offset: 0x%x Length: 0x%x"
      [.str "flash_area_erase", .num off, .num len])
  else
    let startAddr := fa.faOff + off
    let d := d.logDbg "%s: Addr: 0x%08x Length: %d" [.str "flash_area_erase", .num startAddr, .num len]
    let d := eraseLoop startAddr len len.toNat 0 d
    -- VALIDATE_PROGRAM_OP
    match (List.range len.toNat).find? fun i => d.flash (startAddr + BitVec.ofNat 32 i) ≠ 0xff with
    | none => (.returned 0, d)
    | some i => (.trapped, d.logErr "%s: Erase at 0x%x Failed"
        [.str "flash_area_erase", .num (startAddr + BitVec.ofNat 32 i)])

/-! ## What a call does -/

/-- The range of a call as a write to the device. -/
def FlashArea.range (fa : FlashArea) (off : BitVec 32) (src : Nat → Byte) (len : BitVec 32) : Write :=
  ⟨fa.faOff + off, len.toNat, src⟩

/-- The device when an accepted write has left the driver. -/
def written (fa : FlashArea) (off : BitVec 32) (src : Nat → Byte) (len : BitVec 32) (d : Device) : Device where
  flash := (fa.range off src len).apply d.flash
  config := if len.toNat = 0 then d.config else nvmcConfigRen
  trace := d.trace ++ (.log "[DBG] %s: Addr: 0x%08x Length: %d"
      [.str "flash_area_write", .num (fa.faOff + off), .num len] ::
    (List.range len.toNat).map fun i => .program (fa.faOff + off + BitVec.ofNat 32 i))

section Calls

variable {fa : FlashArea} {off len : BitVec 32}

theorem flashAreaWrite_refused (internal : fa.faDeviceId = flashDeviceInternalFlash)
    (beyond : off + len > fa.faSize) (src : Nat → Byte) (d : Device) :
    flashAreaWrite fa off src len d = (.returned (-1), d.logErr "%s: Out of Bounds (0x%x vs 0x%x)"
      [.str "flash_area_write", .num (off + len), .num fa.faSize]) := by
  rw [flashAreaWrite, if_neg (not_not_intro internal)]
  exact if_pos beyond

theorem flashAreaWrite_accepted (internal : fa.faDeviceId = flashDeviceInternalFlash)
    (fits : ¬ off + len > fa.faSize) (src : Nat → Byte) (d : Device) :
    flashAreaWrite fa off src len d =
      if ∀ i < len.toNat, (written fa off src len d).flash (fa.faOff + off + BitVec.ofNat 32 i) = src i then
        (.returned 0, written fa off src len d)
      else (.trapped, (written fa off src len d).logErr "%s: Program Failed" [.str "flash_area_write"]) := by
  have driver : exampleInternalFlashWrite (fa.faOff + off) src len (d.logDbg "%s: Addr: 0x%08x Length: %d"
      [.str "flash_area_write", .num (fa.faOff + off), .num len]) = written fa off src len d := by
    rw [exampleInternalFlashWrite, writeLoop_eq _ _ _ (Nat.le_of_lt len.isLt)]
    simp only [written, Device.logDbg, Device.observe, List.append_assoc]
    rfl
  rw [flashAreaWrite, if_neg (not_not_intro internal)]
  dsimp only
  rw [if_neg fits, driver]

theorem flashAreaRead_refused (internal : fa.faDeviceId = flashDeviceInternalFlash)
    (beyond : off + len > fa.faSize) (d : Device) :
    flashAreaRead fa off len d = (.returned (-1), [], d.logErr "%s: Out of Bounds (0x%x vs 0x%x)"
      [.str "flash_area_read", .num (off + len), .num fa.faSize]) := by
  rw [flashAreaRead, if_neg (not_not_intro internal)]
  exact if_pos beyond

theorem flashAreaRead_accepted (internal : fa.faDeviceId = flashDeviceInternalFlash)
    (fits : ¬ off + len > fa.faSize) (d : Device) :
    flashAreaRead fa off len d = (.returned 0, d.memcpy (fa.faOff + off) len) := by
  rw [flashAreaRead, if_neg (not_not_intro internal)]
  exact if_neg fits

end Calls

end Maskset.Flash
