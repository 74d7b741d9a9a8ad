import Maskset.Logic.Registers

/-!
# The flash patch and breakpoint unit

`fpb.c` over the registers of the unit: a control register whose revision and comparator
counts are read-only, the remap register and the comparators. The two result structures
are what the functions assign to them. A log line is its format and its arguments.
-/

namespace Maskset.Fpb
set_option autoImplicit false

open Maskset.Logic

/-- `FPB`; how many comparators there are is for `FP_CTRL` to say. -/
structure FpbUnit where
  fpCtrl : BitVec 32
  fpRemap : BitVec 32
  fpComp : Nat → BitVec 32

structure LogLine where
  format : String
  args : List (BitVec 32)
deriving DecidableEq

structure FpbState where
  fpb : FpbUnit
  log : List LogLine

structure FpbConfig where
  enabled : Bool
  revision : BitVec 32
  numCodeComparators : BitVec 32
  numLiteralComparators : BitVec 32
deriving DecidableEq

structure FpbCompConfig where
  enabled : Bool
  replace : BitVec 32
  address : BitVec 32
deriving DecidableEq

/-- The fields of `FP_CTRL` that a store does not change: revision and comparator counts. -/
def readOnly : BitVec 32 := 0xF0007FF0#32

namespace FpbUnit

def writeCtrl (fpb : FpbUnit) (value : BitVec 32) : FpbUnit :=
  { fpb with fpCtrl := merge readOnly fpb.fpCtrl value }

def writeComp (fpb : FpbUnit) (compId : Nat) (value : BitVec 32) : FpbUnit :=
  { fpb with fpComp := fun other => if other = compId then value else fpb.fpComp other }

end FpbUnit

namespace FpbState

def exampleLog (s : FpbState) (format : String) (args : List (BitVec 32)) : FpbState :=
  { s with log := s.log ++ [⟨format, args⟩] }

def fpbDisable (s : FpbState) : FpbState := { s with fpb := s.fpb.writeCtrl ((s.fpb.fpCtrl &&& ~~~0x3#32) ||| 0x2#32) }

def fpbEnable (s : FpbState) : FpbState := { s with fpb := s.fpb.writeCtrl (s.fpb.fpCtrl ||| 0x3#32) }

end FpbState

open FpbState

def numCode (fpCtrl : BitVec 32) : BitVec 32 := (((fpCtrl >>> 12) &&& 0x7#32) <<< 4) ||| ((fpCtrl >>> 4) &&& 0xF#32)

def fpbGetConfig (s : FpbState) : FpbConfig :=
  let fpCtrl := s.fpb.fpCtrl
  { enabled := fpCtrl &&& 0x1#32 != 0#32
    revision := (fpCtrl >>> 28) &&& 0xF#32
    numCodeComparators := numCode fpCtrl
    numLiteralComparators := (fpCtrl >>> 8) &&& 0xF#32 }

/-- What is read out of a comparator. -/
def decode (fpComp : BitVec 32) : FpbCompConfig :=
  let replace := fpComp >>> 30
  let address := fpComp &&& 0x1FFFFFFC#32
  { enabled := fpComp &&& 0x1#32 != 0#32
    replace
    address := if replace = 0x2#32 then address ||| 0x2#32 else address }

/-- What is put into a comparator. -/
def encode (instrAddr : BitVec 32) : BitVec 32 :=
  let replace : BitVec 32 := if instrAddr &&& 0x2#32 = 0#32 then 1#32 else 2#32
  (instrAddr &&& ~~~0x3#32) ||| 0x1#32 ||| (replace <<< 30)

def fpbSetBreakpoint (s : FpbState) (compId : Nat) (instrAddr : BitVec 32) : FpbState × Bool :=
  let config := fpbGetConfig s
  if config.revision ≠ 0#32 then (s.exampleLog "Revision %d Parsing Not Supported" [config.revision], false)
  else
    let numComps := config.numCodeComparators
    if compId ≥ numComps.toNat then (s.exampleLog "Instruction Comparator %d Not Implemented" [numComps], false)
    else if instrAddr ≥ 0x20000000#32 then (s.exampleLog "Address 0x%x is not in code region" [instrAddr], false)
    else
      let s := if ¬ config.enabled then (s.exampleLog "Enabling FPB." []).fpbEnable else s
      ({ s with fpb := s.fpb.writeComp compId (encode instrAddr) }, true)

/-- `none` where the function returns false. -/
def fpbGetCompConfig (s : FpbState) (compId : Nat) : FpbState × Option FpbCompConfig :=
  let config := fpbGetConfig s
  if config.revision ≠ 0#32 then (s.exampleLog "Revision %d Parsing Not Supported" [config.revision], none)
  else
    let numComps := config.numCodeComparators + config.numLiteralComparators
    if compId ≥ numComps.toNat then (s.exampleLog "Comparator %d Not Implemented" [numComps], none)
    else (s, some (decode (s.fpb.fpComp compId)))

def ofBool (b : Bool) : BitVec 32 := if b then 1#32 else 0#32

/-- The loop of `fpb_dump_breakpoint_config` from comparator `i` on, with `n` left. -/
def dumpComparators : Nat → Nat → FpbState → FpbState
  | 0, _, s => s
  | n + 1, i, s =>
    let comp := decode (s.fpb.fpComp i)
    dumpComparators n (i + 1) (s.exampleLog "  FP_COMP[%d] Enabled %d, Replace: %d, Address 0x%x"
      [BitVec.ofNat 32 i, ofBool comp.enabled, comp.replace, comp.address])

def fpbDumpBreakpointConfig (s : FpbState) : FpbState :=
  let config := fpbGetConfig s
  dumpComparators config.numCodeComparators.toNat 0 (s.exampleLog
    "FPB Revision: %d, Enabled: %d, Hardware Breakpoints: %d"
    [config.revision, ofBool config.enabled, config.numCodeComparators])

end Maskset.Fpb
