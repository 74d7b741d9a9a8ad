import Maskset.Fpb.Breakpoints
import Maskset.Logic.Service

/-!
# Debugging sessions

The functions of `fpb.c` in any order and with any arguments. A session works with a table of
breakpoints: what is read out of a comparator, and the configuration. The masks of the registers,
the read-only fields and the log are behind it.
-/

namespace Maskset.Fpb
set_option autoImplicit false

open Maskset.Logic FpbState

inductive Request where
  | dumpBreakpointConfig
  | disable
  | enable
  | getConfig
  | setBreakpoint (compId : Nat) (instrAddr : BitVec 32)
  | getCompConfig (compId : Nat)
deriving DecidableEq

/-- What a function returns, what it stores through its pointer and what it logs. -/
structure Answer where
  returned : Option Bool := none
  config : Option FpbConfig := none
  compConfig : Option FpbCompConfig := none
  log : List LogLine := []
deriving DecidableEq

/-- The function of a request, on the registers. -/
def fpbCalls : Service FpbUnit Request Answer := fun fpb q =>
  let s : FpbState := ⟨fpb, []⟩
  match q with
  | .dumpBreakpointConfig => some ((fpbDumpBreakpointConfig s).fpb, { log := (fpbDumpBreakpointConfig s).log })
  | .disable => some (s.fpbDisable.fpb, {})
  | .enable => some (s.fpbEnable.fpb, {})
  | .getConfig => some (fpb, { config := some (fpbGetConfig s) })
  | .setBreakpoint compId instrAddr =>
    let (s, ok) := fpbSetBreakpoint s compId instrAddr
    some (s.fpb, { returned := some ok, log := s.log })
  | .getCompConfig compId =>
    let (s, compConfig) := fpbGetCompConfig s compId
    some (s.fpb, { returned := some compConfig.isSome, compConfig, log := s.log })

/-! ## What a session sees -/

@[ext] structure Table where
  config : FpbConfig
  comp : Nat → FpbCompConfig

/-- The line of a breakpoint that is not accepted. -/
def refusedSet (config : FpbConfig) (compId : Nat) (instrAddr : BitVec 32) : Option LogLine :=
  if config.revision ≠ 0#32 then some ⟨"Revision %d Parsing Not Supported", [config.revision]⟩
  else if compId ≥ config.numCodeComparators.toNat then
    some ⟨"Instruction Comparator %d Not Implemented", [config.numCodeComparators]⟩
  else if instrAddr ≥ 0x20000000#32 then some ⟨"Address 0x%x is not in code region", [instrAddr]⟩
  else none

/-- The line of a comparator that is not read. -/
def refusedGet (config : FpbConfig) (compId : Nat) : Option LogLine :=
  let numComps := config.numCodeComparators + config.numLiteralComparators
  if config.revision ≠ 0#32 then some ⟨"Revision %d Parsing Not Supported", [config.revision]⟩
  else if compId ≥ numComps.toNat then some ⟨"Comparator %d Not Implemented", [numComps]⟩
  else none

namespace Table

/-- The lines of the dump: the configuration and every code comparator. -/
def listing (m : Table) : List LogLine :=
  ⟨"FPB Revision: %d, Enabled: %d, Hardware Breakpoints: %d",
    [m.config.revision, ofBool m.config.enabled, m.config.numCodeComparators]⟩ ::
  (List.range m.config.numCodeComparators.toNat).map fun i =>
    ⟨"  FP_COMP[%d] Enabled %d, Replace: %d, Address 0x%x",
      [BitVec.ofNat 32 i, ofBool (m.comp i).enabled, (m.comp i).replace, (m.comp i).address]⟩

def switch (m : Table) (enabled : Bool) : Table := { m with config := { m.config with enabled } }

/-- A breakpoint that is accepted. -/
def set (m : Table) (compId : Nat) (instrAddr : BitVec 32) : Table :=
  { m.switch true with comp := Function.update m.comp compId (breakpoint instrAddr) }

end Table

/-- The abstract unit. -/
def table : Service Table Request Answer
  | m, .dumpBreakpointConfig => some (m, { log := m.listing })
  | m, .disable => some (m.switch false, {})
  | m, .enable => some (m.switch true, {})
  | m, .getConfig => some (m, { config := some m.config })
  | m, .setBreakpoint compId instrAddr =>
    match refusedSet m.config compId instrAddr with
    | some line => some (m, { returned := some false, log := [line] })
    | none => some (m.set compId instrAddr,
        { returned := some true, log := if m.config.enabled then [] else [⟨"Enabling FPB.", []⟩] })
  | m, .getCompConfig compId =>
    match refusedGet m.config compId with
    | some line => some (m, { returned := some false, log := [line] })
    | none => some (m, { returned := some true, compConfig := some (m.comp compId) })

/-- What is read out of the registers. -/
def FpbUnit.view (fpb : FpbUnit) : Table := ⟨fpbGetConfig ⟨fpb, []⟩, fun compId => decode (fpb.fpComp compId)⟩

section Refines

variable {fpb : FpbUnit} {compId : Nat} {instrAddr : BitVec 32}

theorem view_disable (fpb : FpbUnit) : (fpbDisable ⟨fpb, []⟩).fpb.view = fpb.view.switch false :=
  Table.ext (fpbGetConfig_disable ⟨fpb, []⟩) rfl

theorem view_enable (fpb : FpbUnit) : (fpbEnable ⟨fpb, []⟩).fpb.view = fpb.view.switch true :=
  Table.ext (fpbGetConfig_enable ⟨fpb, []⟩) rfl

theorem view_set {t : FpbState} (stored : Stored ⟨fpb, []⟩ t compId instrAddr) :
    t.fpb.view = fpb.view.set compId instrAddr := by
  have comp (k : Nat) : t.fpb.view.comp k = (fpb.view.set compId instrAddr).comp k := by
    by_cases here : k = compId
    · subst here
      have own : t.fpb.fpComp k = encode instrAddr := by
        rw [stored.comp]
        exact if_pos rfl
      have set : (fpb.view.set k instrAddr).comp k = breakpoint instrAddr := Function.update_self ..
      rw [set, ← decode_encode stored.inCode, ← own]
      rfl
    · have other : (fpb.view.set compId instrAddr).comp k = decode (fpb.fpComp k) := Function.update_of_ne here ..
      rw [other, ← stored.others here]
      rfl
  exact Table.ext stored.config (funext comp)

/-- A refused breakpoint leaves its line and nothing else. -/
theorem fpbSetBreakpoint_refused {line : LogLine}
    (refusal : refusedSet (fpbGetConfig ⟨fpb, []⟩) compId instrAddr = some line) :
    fpbSetBreakpoint ⟨fpb, []⟩ compId instrAddr = (⟨fpb, [line]⟩, false) := by
  rw [refusedSet] at refusal
  rw [fpbSetBreakpoint]
  dsimp only
  by_cases revision : (fpbGetConfig ⟨fpb, []⟩).revision ≠ 0#32
  · rw [if_pos revision] at refusal ⊢
    exact Option.some.inj refusal ▸ rfl
  rw [if_neg revision] at refusal ⊢
  by_cases missing : compId ≥ (fpbGetConfig ⟨fpb, []⟩).numCodeComparators.toNat
  · rw [if_pos missing] at refusal ⊢
    exact Option.some.inj refusal ▸ rfl
  rw [if_neg missing] at refusal ⊢
  by_cases outside : instrAddr ≥ 0x20000000#32
  · rw [if_pos outside] at refusal ⊢
    exact Option.some.inj refusal ▸ rfl
  · rw [if_neg outside] at refusal
    cases refusal

theorem refusedSet_none {config : FpbConfig} : refusedSet config compId instrAddr = none ↔
    config.revision = 0#32 ∧ compId < config.numCodeComparators.toNat ∧ instrAddr < 0x20000000#32 := by
  rw [refusedSet]
  split
  · rename_i revision
    simp [revision]
  split
  · rename_i missing
    simp [Nat.not_lt.2 missing]
  split
  · rename_i outside
    simp [BitVec.not_lt.2 outside]
  · rename_i revision missing inCode
    simp [Decidable.of_not_not revision, Nat.lt_of_not_ge missing, BitVec.not_le.1 inCode]

/-- An accepted one is stored, with a line if the unit was off. -/
theorem fpbSetBreakpoint_accepted (accepted : refusedSet (fpbGetConfig ⟨fpb, []⟩) compId instrAddr = none) :
    ∃ t, fpbSetBreakpoint ⟨fpb, []⟩ compId instrAddr = (t, true) ∧ Stored ⟨fpb, []⟩ t compId instrAddr ∧
      t.log = if (fpbGetConfig ⟨fpb, []⟩).enabled then [] else [⟨"Enabling FPB.", []⟩] := by
  obtain ⟨revision, implemented, inCode⟩ := refusedSet_none.1 accepted
  obtain ⟨t, call, log⟩ : ∃ t, fpbSetBreakpoint ⟨fpb, []⟩ compId instrAddr = (t, true) ∧
      t.log = if (fpbGetConfig ⟨fpb, []⟩).enabled then [] else [⟨"Enabling FPB.", []⟩] := by
    rw [fpbSetBreakpoint]
    dsimp only
    rw [if_neg (not_not_intro revision), if_neg (Nat.not_le.2 implemented), if_neg (BitVec.not_le.2 inCode)]
    refine ⟨_, rfl, ?_⟩
    cases (fpbGetConfig ⟨fpb, []⟩).enabled <;> rfl
  rcases fpbSetBreakpoint_cases ⟨fpb, []⟩ compId instrAddr with ⟨u, refused, -⟩ | ⟨u, set, stored⟩
  · cases (Prod.mk.inj (refused.symm.trans call)).2
  · obtain rfl := (Prod.mk.inj (set.symm.trans call)).1
    exact ⟨u, call, stored, log⟩

theorem setBreakpoint_refines : (fpbCalls fpb (.setBreakpoint compId instrAddr)).map (Prod.map FpbUnit.view id) =
    table fpb.view (.setBreakpoint compId instrAddr) := by
  rw [fpbCalls, table]
  cases refusal : refusedSet fpb.view.config compId instrAddr with
  | some line =>
    rw [fpbSetBreakpoint_refused refusal]
    rfl
  | none =>
    obtain ⟨t, call, stored, log⟩ := fpbSetBreakpoint_accepted refusal
    rw [call]
    dsimp only
    rw [log, Option.map_some, Prod.map_apply, view_set stored]
    rfl

theorem getCompConfig_refines : (fpbCalls fpb (.getCompConfig compId)).map (Prod.map FpbUnit.view id) =
    table fpb.view (.getCompConfig compId) := by
  have config : fpb.view.config = fpbGetConfig ⟨fpb, []⟩ := rfl
  rw [fpbCalls, table, refusedGet, config]
  dsimp only
  by_cases revision : (fpbGetConfig ⟨fpb, []⟩).revision ≠ 0#32
  · rw [fpbGetCompConfig, if_pos revision]
    dsimp only
    rw [if_pos revision]
    rfl
  by_cases missing : compId ≥
      ((fpbGetConfig ⟨fpb, []⟩).numCodeComparators + (fpbGetConfig ⟨fpb, []⟩).numLiteralComparators).toNat
  · rw [fpbGetCompConfig, if_neg revision, if_pos missing]
    dsimp only
    rw [if_neg revision, if_pos missing]
    rfl
  · rw [fpbGetCompConfig_eq (Decidable.of_not_not revision) (Nat.lt_of_not_ge missing), if_neg revision,
      if_neg missing]
    rfl

theorem dump_refines : (fpbCalls fpb .dumpBreakpointConfig).map (Prod.map FpbUnit.view id) =
    table fpb.view .dumpBreakpointConfig := by
  rw [fpbCalls, table, fpbDumpBreakpointConfig_eq, ← List.range_eq_range']
  rfl

/-- **Every function works on the table.** -/
theorem fpb_refines : Service.Refines fpbCalls table FpbUnit.view fun _ => True := by
  intro fpb q _
  cases q with
  | dumpBreakpointConfig => exact dump_refines
  | disable =>
    rw [table, ← view_disable]
    rfl
  | enable =>
    rw [table, ← view_enable]
    rfl
  | getConfig => rfl
  | setBreakpoint compId instrAddr => exact setBreakpoint_refines
  | getCompConfig compId => exact getCompConfig_refines

end Refines

/-! ## Whole sessions -/

/-- What a request makes of the enable bit, on a unit with this configuration. -/
def switches (config : FpbConfig) : Request → Option Bool
  | .disable => some false
  | .enable => some true
  | .setBreakpoint compId instrAddr => if (refusedSet config compId instrAddr).isNone then some true else none
  | _ => none

/-- The breakpoint that a request puts into the comparator. -/
def sets (config : FpbConfig) (compId : Nat) : Request → Option FpbCompConfig
  | .setBreakpoint other instrAddr =>
    if other = compId ∧ (refusedSet config other instrAddr).isNone then some (breakpoint instrAddr) else none
  | _ => none

/-- The table of a unit with this revision and these counts. -/
def OfUnit (config : FpbConfig) (m : Table) : Prop := ∃ enabled, m.config = { config with enabled }

section Sessions

variable {config : FpbConfig} {m m' : Table} {q : Request} {a : Answer}

/-- What one request does. -/
theorem table_step (same : OfUnit config m) (step : table m q = some (m', a)) :
    OfUnit config m' ∧ m'.config.enabled = (switches config q).getD m.config.enabled ∧
      ∀ compId, m'.comp compId = (sets config compId q).getD (m.comp compId) := by
  obtain ⟨enabled, same⟩ := same
  cases q with
  | dumpBreakpointConfig =>
    obtain ⟨rfl, -⟩ := Prod.mk.inj (Option.some.inj step)
    exact ⟨⟨enabled, same⟩, rfl, fun _ => rfl⟩
  | disable =>
    obtain ⟨rfl, -⟩ := Prod.mk.inj (Option.some.inj step)
    refine ⟨⟨false, ?_⟩, rfl, fun _ => rfl⟩
    rw [Table.switch, same]
  | enable =>
    obtain ⟨rfl, -⟩ := Prod.mk.inj (Option.some.inj step)
    refine ⟨⟨true, ?_⟩, rfl, fun _ => rfl⟩
    rw [Table.switch, same]
  | getConfig =>
    obtain ⟨rfl, -⟩ := Prod.mk.inj (Option.some.inj step)
    exact ⟨⟨enabled, same⟩, rfl, fun _ => rfl⟩
  | setBreakpoint other instrAddr =>
    have refusal : refusedSet m.config other instrAddr = refusedSet config other instrAddr := by
      rw [same]
      rfl
    rw [table, refusal] at step
    rw [switches]
    cases refused : refusedSet config other instrAddr with
    | some line =>
      rw [refused] at step
      obtain ⟨rfl, -⟩ := Prod.mk.inj (Option.some.inj step)
      refine ⟨⟨enabled, same⟩, rfl, fun compId => ?_⟩
      simp [sets, refused]
    | none =>
      rw [refused] at step
      obtain ⟨rfl, -⟩ := Prod.mk.inj (Option.some.inj step)
      refine ⟨⟨true, ?_⟩, rfl, fun compId => ?_⟩
      · rw [Table.set, Table.switch, same]
      · by_cases here : other = compId
        · subst here
          simp [sets, refused, Table.set]
        · have elsewhere : compId ≠ other := fun equal => here equal.symm
          simp [sets, here, Table.set, Table.switch, Function.update_of_ne elsewhere]
  | getCompConfig compId =>
    have kept : m' = m := by
      rw [table] at step
      split at step
      · exact (Prod.mk.inj (Option.some.inj step)).1.symm
      · exact (Prod.mk.inj (Option.some.inj step)).1.symm
    subst kept
    exact ⟨⟨enabled, same⟩, rfl, fun _ => rfl⟩

/-- No call writes `FP_REMAP`. -/
theorem fpbCalls_remap {fpb t : FpbUnit} (step : fpbCalls fpb q = some (t, a)) : t.fpRemap = fpb.fpRemap := by
  cases q with
  | dumpBreakpointConfig =>
    obtain ⟨rfl, -⟩ := Prod.mk.inj (Option.some.inj step)
    rw [fpbDumpBreakpointConfig_eq]
  | disable =>
    obtain ⟨rfl, -⟩ := Prod.mk.inj (Option.some.inj step)
    rfl
  | enable =>
    obtain ⟨rfl, -⟩ := Prod.mk.inj (Option.some.inj step)
    rfl
  | getConfig =>
    obtain ⟨rfl, -⟩ := Prod.mk.inj (Option.some.inj step)
    rfl
  | setBreakpoint compId instrAddr =>
    rw [fpbCalls] at step
    dsimp only at step
    rcases fpbSetBreakpoint_cases ⟨fpb, []⟩ compId instrAddr with ⟨s, call, kept⟩ | ⟨s, call, stored⟩
    · rw [call] at step
      obtain ⟨rfl, -⟩ := Prod.mk.inj (Option.some.inj step)
      exact congrArg FpbUnit.fpRemap kept
    · rw [call] at step
      obtain ⟨rfl, -⟩ := Prod.mk.inj (Option.some.inj step)
      exact stored.remap
  | getCompConfig compId =>
    rw [fpbCalls, fpbGetCompConfig] at step
    dsimp only at step
    split at step
    · obtain ⟨rfl, -⟩ := Prod.mk.inj (Option.some.inj step)
      rfl
    split at step
    · obtain ⟨rfl, -⟩ := Prod.mk.inj (Option.some.inj step)
      rfl
    · obtain ⟨rfl, -⟩ := Prod.mk.inj (Option.some.inj step)
      rfl

end Sessions

/-- **What a session sees**, whatever the registers hold and whatever is called with whatever arguments: the
answers and log lines are those of the table. Revision and counts stay, the unit is on exactly if the last
call to switch it, an accepted breakpoint included, has switched it on, and every comparator reads as the
breakpoint last accepted for it. -/
theorem session_shows (fpb : FpbUnit) (qs : List Request) : ∃ t as, fpbCalls.serve fpb qs = some (t, as) ∧
    table.serve fpb.view qs = some (t.view, as) ∧
    t.view.config = { fpb.view.config with
      enabled := Service.last (switches fpb.view.config) fpb.view.config.enabled qs } ∧
    (∀ compId, t.view.comp compId =
      Service.last (sets fpb.view.config compId) (fpb.view.comp compId) qs) ∧
    t.fpRemap = fpb.fpRemap := by
  have answers : ∀ fpb q, (fpbCalls fpb q).isSome := by
    intro fpb q
    cases q <;> rfl
  obtain ⟨⟨t, as⟩, run⟩ := Option.isSome_iff_exists.1 (Service.serve_isSome answers fpb qs)
  have seen := @Service.Refines.serve _ _ _ _ _ _ _ _ fpb_refines qs (fun _ _ => trivial) fpb
  rw [run] at seen
  have start : OfUnit fpb.view.config fpb.view := ⟨fpb.view.config.enabled, rfl⟩
  have enabled : t.view.config.enabled = _ :=
    @Service.serve_last _ _ _ table _ _ _ _ _ (OfUnit fpb.view.config) (fun m => m.config.enabled)
      (switches fpb.view.config) start seen.symm fun m q m' a same step =>
        ⟨(table_step same step).1, (table_step same step).2.1⟩
  have comp (compId : Nat) : t.view.comp compId = _ :=
    @Service.serve_last _ _ _ table _ _ _ _ _ (OfUnit fpb.view.config) (fun m => m.comp compId)
      (sets fpb.view.config compId) start seen.symm fun m q m' a same step =>
        ⟨(table_step same step).1, (table_step same step).2.2 compId⟩
  have same : OfUnit fpb.view.config t.view :=
    Service.serve_invariant start seen.symm fun _ _ _ _ same _ step => (table_step same step).1
  have remap : t.fpRemap = fpb.fpRemap :=
    @Service.serve_invariant _ _ _ fpbCalls _ _ _ _ (fun t => t.fpRemap = fpb.fpRemap) rfl run
      fun _ _ _ _ same _ step => (fpbCalls_remap step).trans same
  obtain ⟨on, config⟩ := same
  have last : on = t.view.config.enabled := (congrArg FpbConfig.enabled config).symm
  rw [last, enabled] at config
  exact ⟨t, as, run, seen.symm, config, comp, remap⟩

end Maskset.Fpb
