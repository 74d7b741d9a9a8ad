import Maskset.Fpb.Fpb
import Maskset.Logic.Machine

/-!
# Breakpoints

What `fpb_set_breakpoint` puts into a comparator is what `fpb_get_comp_config` reads out of
it, for every address of the code region. A call either stores and enables the unit, or
changes no register at all.
-/

namespace Maskset.Fpb
set_option autoImplicit false

open Maskset.Logic FpbState

/-- The breakpoint at an address, as it is read back. -/
def breakpoint (instrAddr : BitVec 32) : FpbCompConfig where
  enabled := true
  replace := if instrAddr.getLsbD 1 then 2#32 else 1#32
  address := instrAddr &&& ~~~1#32

section Encoding

variable {a : BitVec 32}

theorem and_bit0 (a : BitVec 32) : a &&& 1#32 = if a.getLsbD 0 then 1#32 else 0#32 := BitVec.and_twoPow a 0

theorem and_bit1 (a : BitVec 32) : a &&& 2#32 = if a.getLsbD 1 then 2#32 else 0#32 := BitVec.and_twoPow a 1

/-- The bits of a comparator that do not come from the address. -/
def tag (upper : Bool) : BitVec 32 := if upper then 0x80000001#32 else 0x40000001#32

theorem encode_eq (a : BitVec 32) : encode a = (a &&& ~~~3#32) ||| tag (a.getLsbD 1) := by
  rw [encode, BitVec.or_assoc, and_bit1]
  cases a.getLsbD 1 <;> rfl

theorem shiftRight_codeRegion (inCode : a < 0x20000000#32) : a >>> 30 = 0#32 := by
  apply BitVec.eq_of_toNat_eq
  rw [BitVec.lt_def] at inCode
  rw [BitVec.toNat_ushiftRight, Nat.shiftRight_eq_div_pow]
  exact Nat.div_eq_of_lt (Nat.lt_trans inCode (by decide))

/-- The mask of the decoder drops bits 31 to 29, which no address of the code region has. -/
theorem and_codeRegion (inCode : a < 0x20000000#32) : a &&& 0x1FFFFFFC#32 = a &&& ~~~3#32 := by
  have whole : a &&& 0x1FFFFFFF#32 = a := by
    apply BitVec.eq_of_toNat_eq
    rw [BitVec.lt_def] at inCode
    rw [BitVec.toNat_and]
    exact (Nat.and_two_pow_sub_one_eq_mod _ 29).trans (Nat.mod_eq_of_lt inCode)
  have mask : 0x1FFFFFFC#32 = 0x1FFFFFFF#32 &&& ~~~3#32 := by decide
  rw [mask, ← BitVec.and_assoc, whole]

/-- An address without bit 0 is its aligned part and bit 1. -/
theorem and_not_one (a : BitVec 32) : a &&& ~~~1#32 = (a &&& ~~~3#32) ||| (if a.getLsbD 1 then 2#32 else 0#32) := by
  have mask : ~~~1#32 = ~~~3#32 ||| 2#32 := by decide
  rw [mask, BitVec.and_or_distrib_left, and_bit1]

theorem encoded_and (a mask : BitVec 32) (upper : Bool) :
    ((a &&& ~~~3#32) ||| tag upper) &&& mask = (a &&& (~~~3#32 &&& mask)) ||| (tag upper &&& mask) := by
  rw [BitVec.and_or_distrib_right, BitVec.and_assoc]

/-- **Encoder and decoder agree** on the whole code region. -/
theorem decode_encode (inCode : a < 0x20000000#32) : decode (encode a) = breakpoint a := by
  have enabled : encode a &&& 1#32 = 1#32 := by
    have unaligned : ~~~3#32 &&& 1#32 = 0#32 := by decide
    rw [encode_eq, encoded_and, unaligned, BitVec.and_zero, BitVec.zero_or]
    cases a.getLsbD 1 <;> rfl
  have replace : encode a >>> 30 = if a.getLsbD 1 then 2#32 else 1#32 := by
    rw [encode_eq, BitVec.ushiftRight_or_distrib, BitVec.ushiftRight_and_distrib, shiftRight_codeRegion inCode,
      BitVec.zero_and, BitVec.zero_or]
    cases a.getLsbD 1 <;> rfl
  have address : encode a &&& 0x1FFFFFFC#32 = a &&& ~~~3#32 := by
    have aligned : ~~~3#32 &&& 0x1FFFFFFC#32 = 0x1FFFFFFC#32 := by decide
    have clear : tag (a.getLsbD 1) &&& 0x1FFFFFFC#32 = 0#32 := by cases a.getLsbD 1 <;> rfl
    rw [encode_eq, encoded_and, aligned, clear, BitVec.or_zero, and_codeRegion inCode]
  rw [decode, breakpoint, enabled, replace, address, and_not_one]
  cases a.getLsbD 1 <;> simp

end Encoding

section Config

variable {s : FpbState} {compId : Nat}

/-- A store to `FP_CTRL` changes nothing that is read out of it but the enable bit. -/
theorem fpbGetConfig_writeCtrl (s : FpbState) (value : BitVec 32) :
    fpbGetConfig { s with fpb := s.fpb.writeCtrl value } =
      { fpbGetConfig s with enabled := value &&& 0x1#32 != 0#32 } := by
  have enabled : merge readOnly s.fpb.fpCtrl value &&& 1#32 = value &&& 1#32 := merge_stored (by decide)
  have revision : (merge readOnly s.fpb.fpCtrl value >>> 28) &&& 0xF#32 = (s.fpb.fpCtrl >>> 28) &&& 0xF#32 :=
    field_merge (by decide) (by decide)
  have upper : (merge readOnly s.fpb.fpCtrl value >>> 12) &&& 0x7#32 = (s.fpb.fpCtrl >>> 12) &&& 0x7#32 :=
    field_merge (by decide) (by decide)
  have lower : (merge readOnly s.fpb.fpCtrl value >>> 4) &&& 0xF#32 = (s.fpb.fpCtrl >>> 4) &&& 0xF#32 :=
    field_merge (by decide) (by decide)
  have literals : (merge readOnly s.fpb.fpCtrl value >>> 8) &&& 0xF#32 = (s.fpb.fpCtrl >>> 8) &&& 0xF#32 :=
    field_merge (by decide) (by decide)
  simp only [fpbGetConfig, FpbUnit.writeCtrl, numCode]
  rw [enabled, revision, upper, lower, literals]

theorem fpbGetConfig_enable (s : FpbState) : fpbGetConfig s.fpbEnable = { fpbGetConfig s with enabled := true } := by
  have enabled : (s.fpb.fpCtrl ||| 0x3#32) &&& 0x1#32 = 0x1#32 := by
    have fixed : 0x3#32 &&& 0x1#32 = 0x1#32 := by decide
    rw [BitVec.and_or_distrib_right, fixed, and_bit0]
    cases s.fpb.fpCtrl.getLsbD 0 <;> rfl
  rw [fpbEnable, fpbGetConfig_writeCtrl]
  simp only [enabled]
  rfl

theorem fpbGetConfig_disable (s : FpbState) : fpbGetConfig s.fpbDisable = { fpbGetConfig s with enabled := false } := by
  have disabled : ((s.fpb.fpCtrl &&& ~~~0x3#32) ||| 0x2#32) &&& 0x1#32 = 0#32 := by
    have cleared : ~~~0x3#32 &&& 0x1#32 = 0#32 := by decide
    have fixed : 0x2#32 &&& 0x1#32 = 0#32 := by decide
    rw [BitVec.and_or_distrib_right, BitVec.and_assoc, cleared, fixed, BitVec.and_zero, BitVec.or_zero]
  rw [fpbDisable, fpbGetConfig_writeCtrl]
  simp only [disabled]
  rfl

/-- The code comparators are among those the getter admits. -/
theorem codeComparators_le (s : FpbState) : (fpbGetConfig s).numCodeComparators.toNat ≤
    ((fpbGetConfig s).numCodeComparators + (fpbGetConfig s).numLiteralComparators).toNat := by
  have literals : (fpbGetConfig s).numLiteralComparators.toNat ≤ 15 := Nat.and_le_right
  have upper : (((s.fpb.fpCtrl >>> 12) &&& 0x7#32) <<< 4).toNat < 2 ^ 7 := by
    have three : ((s.fpb.fpCtrl >>> 12) &&& 0x7#32).toNat ≤ 7 := Nat.and_le_right
    rw [BitVec.toNat_shiftLeft, Nat.shiftLeft_eq]
    omega
  have lower : ((s.fpb.fpCtrl >>> 4) &&& 0xF#32).toNat < 2 ^ 7 := Nat.lt_of_le_of_lt Nat.and_le_right (by decide)
  have code : (fpbGetConfig s).numCodeComparators.toNat < 2 ^ 7 := by
    have split : (fpbGetConfig s).numCodeComparators.toNat =
        (((s.fpb.fpCtrl >>> 12) &&& 0x7#32) <<< 4).toNat ||| ((s.fpb.fpCtrl >>> 4) &&& 0xF#32).toNat :=
      BitVec.toNat_or _ _
    rw [split]
    exact Nat.or_lt_two_pow upper lower
  rw [BitVec.toNat_add]
  omega

end Config

/-- What a successful call has done. -/
structure Stored (s t : FpbState) (compId : Nat) (instrAddr : BitVec 32) : Prop where
  revision : (fpbGetConfig s).revision = 0#32
  implemented : compId < (fpbGetConfig s).numCodeComparators.toNat
  inCode : instrAddr < 0x20000000#32
  config : fpbGetConfig t = { fpbGetConfig s with enabled := true }
  remap : t.fpb.fpRemap = s.fpb.fpRemap
  comp : t.fpb.fpComp = (s.fpb.writeComp compId (encode instrAddr)).fpComp

section Calls

variable {s t : FpbState} {compId other : Nat} {instrAddr : BitVec 32}

/-- **One call** either stores the breakpoint or leaves every register alone. -/
theorem fpbSetBreakpoint_cases (s : FpbState) (compId : Nat) (instrAddr : BitVec 32) :
    (∃ t, fpbSetBreakpoint s compId instrAddr = (t, false) ∧ t.fpb = s.fpb) ∨
      ∃ t, fpbSetBreakpoint s compId instrAddr = (t, true) ∧ Stored s t compId instrAddr := by
  rw [fpbSetBreakpoint]
  dsimp only
  by_cases revision : (fpbGetConfig s).revision ≠ 0#32
  · rw [if_pos revision]
    exact .inl ⟨_, rfl, rfl⟩
  rw [if_neg revision]
  by_cases missing : compId ≥ (fpbGetConfig s).numCodeComparators.toNat
  · rw [if_pos missing]
    exact .inl ⟨_, rfl, rfl⟩
  rw [if_neg missing]
  by_cases outside : instrAddr ≥ 0x20000000#32
  · rw [if_pos outside]
    exact .inl ⟨_, rfl, rfl⟩
  rw [if_neg outside]
  refine .inr ⟨_, rfl, ?_⟩
  have revision' : (fpbGetConfig s).revision = 0#32 := Decidable.of_not_not revision
  have implemented : compId < (fpbGetConfig s).numCodeComparators.toNat := Nat.lt_of_not_ge missing
  have inCode : instrAddr < 0x20000000#32 := BitVec.not_le.1 outside
  by_cases enabled : (fpbGetConfig s).enabled = true
  · rw [if_neg (not_not_intro enabled)]
    have config : fpbGetConfig s = { fpbGetConfig s with enabled := true } := by rw [← enabled]
    exact ⟨revision', implemented, inCode, config, rfl, rfl⟩
  · rw [if_pos enabled]
    have config := fpbGetConfig_enable (s.exampleLog "Enabling FPB." [])
    exact ⟨revision', implemented, inCode, config, rfl, rfl⟩

/-- A comparator the getter admits is decoded. -/
theorem fpbGetCompConfig_eq (revision : (fpbGetConfig s).revision = 0#32)
    (implemented : compId < ((fpbGetConfig s).numCodeComparators + (fpbGetConfig s).numLiteralComparators).toNat) :
    fpbGetCompConfig s compId = (s, some (decode (s.fpb.fpComp compId))) := by
  rw [fpbGetCompConfig]
  dsimp only
  rw [if_neg (not_not_intro revision), if_neg (Nat.not_le.2 implemented)]

theorem Stored.decodes (stored : Stored s t compId instrAddr) :
    fpbGetCompConfig t compId = (t, some (breakpoint instrAddr)) := by
  have revision : (fpbGetConfig t).revision = 0#32 := by
    rw [stored.config]
    exact stored.revision
  have implemented := Nat.lt_of_lt_of_le stored.implemented (codeComparators_le s)
  rw [fpbGetCompConfig_eq revision (by rw [stored.config]; exact implemented), stored.comp,
    ← decode_encode stored.inCode, FpbUnit.writeComp]
  simp only [↓reduceIte]

theorem Stored.others (stored : Stored s t compId instrAddr) (different : other ≠ compId) :
    t.fpb.fpComp other = s.fpb.fpComp other := by
  rw [stored.comp]
  exact if_neg different

/-- What the getter answers depends on the comparator it reads and on the read-only fields only. -/
theorem fpbGetCompConfig_congr {enabled : Bool} (config : fpbGetConfig t = { fpbGetConfig s with enabled })
    (same : t.fpb.fpComp compId = s.fpb.fpComp compId) :
    (fpbGetCompConfig t compId).2 = (fpbGetCompConfig s compId).2 := by
  rw [fpbGetCompConfig, fpbGetCompConfig, config, same]
  dsimp only
  split
  · rfl
  split <;> rfl

end Calls

/-! ## The dump -/

/-- The line of a comparator. -/
def compLine (s : FpbState) (i : Nat) : LogLine :=
  let comp := decode (s.fpb.fpComp i)
  ⟨"  FP_COMP[%d] Enabled %d, Replace: %d, Address 0x%x",
    [BitVec.ofNat 32 i, ofBool comp.enabled, comp.replace, comp.address]⟩

theorem dumpComparators_eq (n i : Nat) (s : FpbState) :
    dumpComparators n i s = { s with log := s.log ++ (List.range' i n).map (compLine s) } := by
  induction n generalizing i s with
  | zero =>
    rw [dumpComparators, List.range'_zero, List.map_nil, List.append_nil]
  | succ n ih =>
    rw [dumpComparators, ih, List.range'_succ, List.map_cons]
    change ({ s with log := s.log ++ [compLine s i] ++ (List.range' (i + 1) n).map (compLine s) } : FpbState) = _
    rw [List.append_assoc]
    rfl

def headLine (s : FpbState) : LogLine :=
  ⟨"FPB Revision: %d, Enabled: %d, Hardware Breakpoints: %d",
    [(fpbGetConfig s).revision, ofBool (fpbGetConfig s).enabled, (fpbGetConfig s).numCodeComparators]⟩

/-- The dump changes no register and has one line for each code comparator, which shows what the
getter reads out of it. -/
theorem fpbDumpBreakpointConfig_eq (s : FpbState) : fpbDumpBreakpointConfig s =
    { s with log := s.log ++ headLine s ::
      (List.range' 0 (fpbGetConfig s).numCodeComparators.toNat).map (compLine s) } := by
  rw [fpbDumpBreakpointConfig, dumpComparators_eq]
  change ({ s with log := s.log ++ [headLine s] ++ _ } : FpbState) = _
  rw [List.append_assoc]
  rfl

/-! ## Runs of calls -/

/-- A call that has to succeed. -/
def setBreakpoint : Machine FpbState (Nat × BitVec 32) := fun s call =>
  match fpbSetBreakpoint s call.1 call.2 with
  | (t, true) => some t
  | (_, false) => none

/-- The address last set on a comparator. -/
def lastSet (calls : List (Nat × BitVec 32)) (compId : Nat) : Option (BitVec 32) :=
  calls.foldl (fun last call => if call.1 = compId then some call.2 else last) none

section Runs

variable {s t u : FpbState} {calls : List (Nat × BitVec 32)} {call : Nat × BitVec 32} {compId : Nat}

theorem lastSet_snoc : lastSet (calls ++ [call]) compId =
    if call.1 = compId then some call.2 else lastSet calls compId := List.foldl_append

theorem stored_of_setBreakpoint (step : setBreakpoint s call = some t) : Stored s t call.1 call.2 := by
  rw [setBreakpoint] at step
  rcases fpbSetBreakpoint_cases s call.1 call.2 with ⟨u, rejected, -⟩ | ⟨u, accepted, stored⟩
  · rw [rejected] at step
    cases step
  · rw [accepted] at step
    obtain rfl := Option.some.inj step
    exact stored

/-- What a comparator holds after a run: the breakpoint last set on it, or what it held before. -/
structure Tracks (s t : FpbState) (last : Option (BitVec 32)) (compId : Nat) : Prop where
  set : ∀ instrAddr, last = some instrAddr → (fpbGetCompConfig t compId).2 = some (breakpoint instrAddr)
  unset : last = none → t.fpb.fpComp compId = s.fpb.fpComp compId

theorem Tracks.step (tracks : Tracks s t (lastSet calls compId) compId) (step : setBreakpoint t call = some u) :
    Tracks s u (lastSet (calls ++ [call]) compId) compId := by
  have stored := stored_of_setBreakpoint step
  rw [lastSet_snoc]
  by_cases here : call.1 = compId
  · rw [if_pos here]
    constructor
    · intro instrAddr last
      obtain rfl := Option.some.inj last
      rw [← here, stored.decodes]
    · intro none
      cases none
  · rw [if_neg here]
    have same := stored.others (Ne.symm here)
    constructor
    · intro instrAddr last
      rw [fpbGetCompConfig_congr stored.config same]
      exact tracks.set instrAddr last
    · intro none
      rw [same]
      exact tracks.unset none

theorem tracks_run {ok : FpbState → Nat × BitVec 32 → Prop} (run : setBreakpoint.Run ok s calls t) (compId : Nat) :
    Tracks s t (lastSet calls compId) compId := by
  induction run with
  | nil =>
    constructor
    · intro instrAddr last
      cases last
    · intro none
      rfl
  | snoc before meets step ih => exact ih.step step

end Runs

/-- **Breakpoints round-trip**: a call that returns true sets this comparator, enables the unit and
changes no other register; a call that returns false changes none. So after any sequence of
successful calls each comparator decodes to the address last set on it. -/
theorem breakpoint_round_trip (s : FpbState) :
    (∀ compId instrAddr t, fpbSetBreakpoint s compId instrAddr = (t, true) →
      fpbGetCompConfig t compId = (t, some (breakpoint instrAddr)) ∧ (fpbGetConfig t).enabled = true ∧
        (∀ other, other ≠ compId → t.fpb.fpComp other = s.fpb.fpComp other) ∧ t.fpb.fpRemap = s.fpb.fpRemap) ∧
    (∀ compId instrAddr t, fpbSetBreakpoint s compId instrAddr = (t, false) → t.fpb = s.fpb) ∧
    ∀ calls t, setBreakpoint.Run (fun _ _ => True) s calls t → ∀ compId, Tracks s t (lastSet calls compId) compId := by
  refine ⟨?_, ?_, ?_⟩
  · intro compId instrAddr t call
    have step : setBreakpoint s (compId, instrAddr) = some t := by
      rw [setBreakpoint]
      dsimp only
      rw [call]
    have stored : Stored s t compId instrAddr := stored_of_setBreakpoint step
    refine ⟨stored.decodes, ?_, fun other different => stored.others different, stored.remap⟩
    rw [stored.config]
  · intro compId instrAddr t call
    rcases fpbSetBreakpoint_cases s compId instrAddr with ⟨u, rejected, same⟩ | ⟨u, accepted, -⟩
    · obtain rfl := (Prod.mk.inj (rejected.symm.trans call)).1
      exact same
    · cases (Prod.mk.inj (accepted.symm.trans call)).2
  · intro calls t run compId
    exact tracks_run run compId

/-- Six code comparators and two literal ones, the unit disabled. -/
def nrf52 : FpbState := ⟨⟨0x260#32, 0#32, fun _ => 0#32⟩, []⟩

theorem breakpoint_round_trip_nrf52 :
    (fpbGetCompConfig (fpbSetBreakpoint nrf52 5 0x1003#32).1 5).2 = some ⟨true, 2#32, 0x1002#32⟩ := by
  obtain ⟨decodes, -⟩ := (breakpoint_round_trip nrf52).1 5 0x1003#32 (fpbSetBreakpoint nrf52 5 0x1003#32).1 rfl
  rw [decodes]
  rfl

end Maskset.Fpb
