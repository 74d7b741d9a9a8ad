import Maskset.Logic.Nor

/-!
# The flash driver

`minimal_nrf52_flash.c` over the memory-mapped flash and the CONFIG register of its
controller, which is always ready. A store to flash acts in write mode only, a write to
ERASEPAGE in erase mode only. The trace holds what the driver and its callers do.
-/

namespace Maskset.Flash
set_option autoImplicit false

open Maskset.Logic.Nor

def nvmcConfigRen : BitVec 32 := 0
def nvmcConfigWen : BitVec 32 := 1
def nvmcConfigEen : BitVec 32 := 2

def flashSectorSize : Nat := 4096

inductive LogArg where
  | str (s : String)
  | num (v : BitVec 32)
deriving DecidableEq

inductive Event where
  | program (address : Addr)
  | erase (address : Addr)
  | copy (address : Addr)
  | log (fmt : String) (args : List LogArg)
deriving DecidableEq

structure Device where
  flash : Memory
  config : BitVec 32
  trace : List Event

namespace Device

def observe (d : Device) (es : List Event) : Device := { d with trace := d.trace ++ es }

/-- `*(uint32_t *)a = v`. -/
def storeWord (d : Device) (a : Addr) (v : BitVec 32) : Device :=
  if d.config = nvmcConfigWen then { d with flash := programWord d.flash a v } else d

/-- `NRF_NVMC->ERASEPAGE = addr`: the page that contains `addr` reads 0xff. -/
def erasePage (d : Device) (addr : Addr) : Device :=
  if d.config = nvmcConfigEen then
    { d with flash := fun b =>
        if b.toNat / flashSectorSize = addr.toNat / flashSectorSize then 0xff else d.flash b }
  else d

end Device

def prvWriteByte (address : Addr) (value : Byte) (d : Device) : Device :=
  let byteShift := address &&& 0x03
  let address32 := address &&& ~~~byteShift
  let value32 := wordAt d.flash address32 &&& ~~~(0xFF#32 <<< (byteShift <<< 3))
  let value32 := value32 + value.setWidth 32 <<< (byteShift <<< 3)
  let d := { d with config := nvmcConfigWen }
  let d := d.storeWord address32 value32
  { d with config := nvmcConfigRen }.observe [.program address]

/-- The first `n` iterations of `example_internal_flash_write`. -/
def writeLoop (addr : Addr) (bufIn : Nat → Byte) : Nat → Device → Device
  | 0, d => d
  | i + 1, d => prvWriteByte (addr + BitVec.ofNat 32 i) (bufIn i) (writeLoop addr bufIn i d)

def exampleInternalFlashWrite (addr : Addr) (buf : Nat → Byte) (length : BitVec 32) (d : Device) : Device :=
  writeLoop addr buf length.toNat d

def exampleInternalFlashEraseSector (addr : Addr) (d : Device) : Device :=
  let d := { d with config := nvmcConfigEen }
  let d := d.erasePage addr
  { d with config := nvmcConfigRen }.observe [.erase addr]

/-! ## What the driver does -/

section Driver

variable {address addr : Addr} {value : Byte} {d : Device}

theorem clear_and (a m : BitVec 32) : (a &&& ~~~(a &&& m)) &&& (a &&& m) = 0#32 := by
  ext i hi
  simp only [BitVec.getElem_and, BitVec.getElem_not, BitVec.getElem_zero]
  cases a[i] <;> cases m[i] <;> rfl

theorem clear_or (a m : BitVec 32) : (a &&& ~~~(a &&& m)) ||| (a &&& m) = a := by
  ext i hi
  simp only [BitVec.getElem_and, BitVec.getElem_or, BitVec.getElem_not]
  cases a[i] <;> cases m[i] <;> rfl

/-- The word of a byte and its lane. -/
theorem address_lane (address : Addr) :
    (address &&& 3).toNat < 4 ∧
      (address &&& ~~~(address &&& 3)) + BitVec.ofNat 32 (address &&& 3).toNat = address := by
  constructor
  · rw [BitVec.toNat_and]
    exact Nat.lt_succ_of_le Nat.and_le_right
  · rw [BitVec.ofNat_toNat, BitVec.setWidth_eq, BitVec.add_eq_or_of_and_eq_zero _ _ (clear_and address 3),
      clear_or address 3]

theorem shift_lane (x : Byte) {k : BitVec 32} (lane : k.toNat < 4) :
    x.setWidth 32 <<< (k <<< 3) = inLane x k.toNat := by
  have amount : (k <<< 3).toNat = 8 * k.toNat := by
    rw [BitVec.toNat_shiftLeft, Nat.shiftLeft_eq]
    omega
  rw [BitVec.shiftLeft_eq', amount, inLane]

/-- **One byte is programmed** and the controller is left in read mode. -/
theorem prvWriteByte_eq (address : Addr) (value : Byte) (d : Device) :
    prvWriteByte address value d =
      { flash := Function.update d.flash address (d.flash address &&& value)
        config := nvmcConfigRen
        trace := d.trace ++ [.program address] } := by
  obtain ⟨lane, aligned⟩ := address_lane address
  have programmed := programWord_replaceByte d.flash (address &&& ~~~(address &&& 3)) lane value
  rw [aligned, replaceByte, ← shift_lane _ lane, ← shift_lane _ lane] at programmed
  rw [← programmed]
  rfl

/-- **The write loop programs the range** and does nothing else to the flash. -/
theorem writeLoop_eq (addr : Addr) (buf : Nat → Byte) (n : Nat) (small : n ≤ 2 ^ 32) (d : Device) :
    writeLoop addr buf n d =
      { flash := Write.apply ⟨addr, n, buf⟩ d.flash
        config := if n = 0 then d.config else nvmcConfigRen
        trace := d.trace ++ (List.range n).map fun i => .program (addr + BitVec.ofNat 32 i) } := by
  induction n with
  | zero => simp [writeLoop, apply_zero]
  | succ n ih =>
    rw [writeLoop, ih (by omega), prvWriteByte_eq, apply_succ d.flash addr n buf (by omega), List.range_succ,
      List.map_append, List.append_assoc]
    rfl

/-- A page erase. -/
theorem exampleInternalFlashEraseSector_eq (addr : Addr) (d : Device) :
    exampleInternalFlashEraseSector addr d =
      { flash := fun b => if b.toNat / flashSectorSize = addr.toNat / flashSectorSize then 0xff else d.flash b
        config := nvmcConfigRen
        trace := d.trace ++ [.erase addr] } := rfl

end Driver

end Maskset.Flash
