import Maskset.Logic.Tasks
import Maskset.War.Csv

/-!
# `main.cpp`

The arguments choose a number of games and strategies; each pair of strategies is simulated
by a task of its own, and the results are collected in the order of the pairs. A draw from
the generator that the tasks share is one step, with any answer: every order of the draws is
covered, the data race on the state of the generator is left out.
-/

namespace Maskset.War
set_option autoImplicit false

open Maskset.Logic Relation

def kGameCount : Nat := 1000000

/-- An index into `strategies`. -/
abbrev Index := Fin strategies.length

/-- What a process leaves behind. -/
structure Exit where
  code : Nat
  out : List Char := []
  err : List Char := []
deriving DecidableEq

def usage (name : List Char) : List Char := "Usage: ".toList ++ name ++ " N_GAMES [indices...]\n".toList

def invalidIndex (idx : Nat) : List Char :=
  "Invalid strategy index ".toList ++ decimal idx ++ " (max allowed ".toList ++ decimal (strategies.length - 1) ++
    ")\n".toList

def nGames (arg : List Char) : Nat := if strtoul arg = 0 then kGameCount else strtoul arg

/-- The loop over the indices, which stops at the first invalid one. -/
def pushIndices : List Index → List (List Char) → Except (List Char) (List Index)
  | selected, [] => .ok selected
  | selected, arg :: args =>
    if valid : strtoul arg < strategies.length then pushIndices (selected ++ [⟨strtoul arg, valid⟩]) args
    else .error (invalidIndex (strtoul arg))

def selectedIndices (args : List (List Char)) : Except (List Char) (List Index) :=
  if args.isEmpty then .ok (List.finRange strategies.length) else pushIndices [] args

/-- The pairs in the order of the two loops. -/
def matrix (selected : List Index) : List (Index × Index) := selected.flatMap fun i => selected.map fun j => (i, j)

def tasks (selected : List Index) (ngames : Nat) : List (Game Results) :=
  (matrix selected).map fun ij => simulateStrategy strategies[ij.1] strategies[ij.2] ngames

inductive Process where
  | simulating (pool : Pool requests Fault Results)
  | exited (e : Exit)
  | aborted

/-- The process behind the parsing of its arguments; the first of them is its name. -/
def main (name : List Char) : List (List Char) → Process
  | [] => .exited { code := 1, err := usage name }
  | games :: args =>
    match selectedIndices args with
    | .ok selected => .simulating ⟨tasks selected (nGames games), [], []⟩
    | .error message => .exited { code := 1, err := message }

/-- A step of the tasks or of the thread that collects the results; a failed assertion ends the process. -/
inductive Process.Step (may : MayAnswer) (showDouble : ShowDouble) : Process → Process → Prop where
  | task {pool pool'} (step : pool.Step (env may) pool') : Step may showDouble (.simulating pool) (.simulating pool')
  | print {results} : Step may showDouble (.simulating ⟨[], [], results⟩)
      (.exited { code := 0, out := printVector showDouble results })
  | abort {pool f} (failed : .fault f ∈ pool.started) : Step may showDouble (.simulating pool) .aborted

/-! ## What the arguments mean -/

/-- The strategies that the arguments choose. -/
def Chosen (args : List (List Char)) (selected : List Index) : Prop :=
  if args = [] then selected = List.finRange strategies.length else args.map strtoul = selected.map Fin.val

/-- The result is what as many possible games between the strategies come to. -/
def Played (may : MayAnswer) (ngames : Nat) (ij : Index × Index) (r : Results) : Prop :=
  ∃ played : List Playing, played.length = ngames ∧
    (∀ g ∈ played, g.Possible may strategies[ij.1] strategies[ij.2]) ∧
    r = aggregate strategies[ij.1] strategies[ij.2] played

/-- What a call of the program is for. -/
inductive Completes (may : MayAnswer) (showDouble : ShowDouble) (name : List Char) :
    List (List Char) → Exit → Prop where
  | usage : Completes may showDouble name [] { code := 1, err := usage name }
  | invalid {games before arg behind} (valid : ∀ a ∈ before, strtoul a < strategies.length)
      (beyond : strategies.length ≤ strtoul arg) :
      Completes may showDouble name (games :: before ++ arg :: behind) { code := 1, err := invalidIndex (strtoul arg) }
  | table {games args selected results} (chosen : Chosen args selected)
      (played : List.Forall₂ (Played may (nGames games)) (matrix selected) results) :
      Completes may showDouble name (games :: args) { code := 0, out := printVector showDouble results }

section Arguments

variable {args : List (List Char)} {selected before : List Index} {message : List Char}

theorem pushIndices_ok : pushIndices before args = .ok selected ↔
    ∃ more, selected = before ++ more ∧ args.map strtoul = more.map Fin.val := by
  induction args generalizing before with
  | nil =>
    rw [pushIndices]
    constructor
    · intro same
      exact ⟨[], by simpa using (Except.ok.inj same).symm, rfl⟩
    · rintro ⟨more, rfl, values⟩
      rw [List.map_nil, eq_comm, List.map_eq_nil_iff] at values
      rw [values, List.append_nil]
  | cons arg args ih =>
    rw [pushIndices]
    by_cases valid : strtoul arg < strategies.length
    · rw [dif_pos valid, ih]
      constructor
      · rintro ⟨more, rfl, values⟩
        exact ⟨⟨strtoul arg, valid⟩ :: more, (List.append_cons ..).symm, congrArg (strtoul arg :: ·) values⟩
      · rintro ⟨more, rfl, values⟩
        cases more with
        | nil => cases values
        | cons i more =>
          obtain ⟨first, rest⟩ := List.cons.inj values
          obtain rfl : (⟨strtoul arg, valid⟩ : Index) = i := Fin.ext first
          exact ⟨more, List.append_cons .., rest⟩
    · rw [dif_neg valid]
      constructor
      · intro wrong
        cases wrong
      · rintro ⟨more, -, values⟩
        cases more with
        | nil => cases values
        | cons i more => exact absurd ((List.cons.inj values).1 ▸ i.2) valid

theorem pushIndices_error : pushIndices before args = .error message ↔
    ∃ valid arg behind, args = valid ++ arg :: behind ∧ (∀ a ∈ valid, strtoul a < strategies.length) ∧
      strategies.length ≤ strtoul arg ∧ message = invalidIndex (strtoul arg) := by
  induction args generalizing before with
  | nil =>
    constructor
    · intro wrong
      cases wrong
    · rintro ⟨valid, arg, behind, split, -⟩
      cases valid <;> cases split
  | cons arg args ih =>
    rw [pushIndices]
    by_cases valid : strtoul arg < strategies.length
    · rw [dif_pos valid, ih]
      constructor
      · rintro ⟨front, bad, behind, rfl, all, beyond, rfl⟩
        exact ⟨arg :: front, bad, behind, rfl, List.forall_mem_cons.2 ⟨valid, all⟩, beyond, rfl⟩
      · rintro ⟨front, bad, behind, split, all, beyond, rfl⟩
        cases front with
        | nil =>
          obtain ⟨rfl, -⟩ := List.cons.inj split
          exact absurd valid (Nat.not_lt.2 beyond)
        | cons a front =>
          obtain ⟨rfl, rfl⟩ := List.cons.inj split
          exact ⟨front, bad, behind, rfl, fun a within => all a (List.mem_cons_of_mem _ within), beyond, rfl⟩
    · rw [dif_neg valid]
      constructor
      · intro same
        exact ⟨[], arg, args, rfl, fun a within => absurd within List.not_mem_nil, Nat.le_of_not_lt valid,
          (Except.error.inj same).symm⟩
      · rintro ⟨front, bad, behind, split, all, beyond, rfl⟩
        cases front with
        | nil =>
          obtain ⟨rfl, -⟩ := List.cons.inj split
          rfl
        | cons a front =>
          obtain ⟨rfl, -⟩ := List.cons.inj split
          exact absurd (all arg List.mem_cons_self) valid

/-- **The indices that are accepted.** -/
theorem selectedIndices_ok : selectedIndices args = .ok selected ↔ Chosen args selected := by
  rw [selectedIndices, Chosen]
  by_cases none : args = []
  · rw [if_pos none, if_pos (List.isEmpty_iff.2 none), Except.ok.injEq, eq_comm]
  · rw [if_neg none, if_neg (mt List.isEmpty_iff.1 none), pushIndices_ok]
    simp

/-- **The index that is refused.** -/
theorem selectedIndices_error : selectedIndices args = .error message ↔
    ∃ valid arg behind, args = valid ++ arg :: behind ∧ (∀ a ∈ valid, strtoul a < strategies.length) ∧
      strategies.length ≤ strtoul arg ∧ message = invalidIndex (strtoul arg) := by
  rw [selectedIndices]
  by_cases none : args = []
  · rw [if_pos (List.isEmpty_iff.2 none)]
    constructor
    · intro wrong
      cases wrong
    · rintro ⟨valid, arg, behind, split, -⟩
      rw [none] at split
      cases valid <;> cases split
  · rw [if_neg (mt List.isEmpty_iff.1 none), pushIndices_error]

end Arguments

/-! ## The runs of the program -/

section Runs

variable {may : MayAnswer} {showDouble : ShowDouble} {name : List Char} {args : List (List Char)} {p p' : Process}
  {pool : Pool requests Fault Results} {selected : List Index} {ngames : Nat} {e : Exit}

/-- No run of the program goes on forever. -/
theorem process_wellFounded (may : MayAnswer) (showDouble : ShowDouble) :
    WellFounded fun p' p => Process.Step may showDouble p p' := by
  have exited (e : Exit) : Acc (fun p' p => Process.Step may showDouble p p') (.exited e) :=
    ⟨_, fun _ step => nomatch step⟩
  have aborted : Acc (fun p' p => Process.Step may showDouble p p') .aborted := ⟨_, fun _ step => nomatch step⟩
  have simulating (pool : Pool requests Fault Results) :
      Acc (fun p' p => Process.Step may showDouble p p') (.simulating pool) := by
    induction pool using (Pool.wellFounded (env may)).induction with
    | _ pool ih =>
      constructor
      intro p' step
      cases step with
      | task step => exact ih _ step
      | print => exact exited _
      | abort => exact aborted
  constructor
  intro p
  cases p with
  | simulating pool => exact simulating pool
  | exited e => exact exited e
  | aborted => exact aborted

/-- **No game faults**, however many are played. -/
theorem wp_games (s1 s2 : Strategy) (n : Nat) (totals : Totals) :
    Prog.wp (.safe (env may)) (games s1 s2 n totals) fun _ => True := by
  induction n generalizing totals with
  | zero => trivial
  | succ n ih =>
    have game := @wp_game may s1 s2
    rw [Prog.wp_bind] at game
    rw [games, Prog.wp_bind]
    refine Prog.wp_mono ?_ game
    rintro ⟨p1, p2⟩ played
    exact Prog.wp_seq played fun t _ => ih _

theorem safe_tasks (selected : List Index) (ngames : Nat) :
    ∀ task ∈ tasks selected ngames, Prog.wp (.safe (env may)) task fun _ => True := by
  intro task within
  obtain ⟨ij, -, rfl⟩ := List.mem_map.1 within
  exact Prog.wp_seq (wp_games _ _ _ _) fun _ _ => trivial

/-- A process that is neither stopped nor stopping. -/
def Process.Sound (may : MayAnswer) : Process → Prop
  | .simulating pool => ∀ task ∈ pool.left, Prog.wp (.safe (env may)) task fun _ => True
  | .exited _ => True
  | .aborted => False

theorem sound_main (name : List Char) (args : List (List Char)) : (main name args).Sound may := by
  cases args with
  | nil => trivial
  | cons games args =>
    rw [main]
    cases selectedIndices args with
    | ok selected => exact safe_tasks selected (nGames games)
    | error message => trivial

theorem Process.Step.sound (step : Process.Step may showDouble p p') (sound : p.Sound may) : p'.Sound may := by
  cases step with
  | task step => exact step.safe sound
  | print => trivial
  | abort failed => exact sound _ (List.mem_append_left _ failed)

theorem steps_sound (run : ReflTransGen (Process.Step may showDouble) p p') (sound : p.Sound may) : p'.Sound may := by
  induction run with
  | refl => exact sound
  | tail _ step ih => exact step.sound ih

/-- A request has an answer if the predicates have one. -/
theorem env_answers (answers : ∀ policy hand pile, ∃ b, may policy hand pile b) (q : Request) : ∃ r, env may q r := by
  cases q with
  | shuffle c v => exact ⟨⟨v, .refl v⟩, trivial⟩
  | rand => exact ⟨(0 : Nat), trivial⟩
  | enriched policy hand pile => exact answers policy hand pile

theorem Process.Sound.progress (answers : ∀ policy hand pile, ∃ b, may policy hand pile b) (sound : p.Sound may) :
    (∃ e, p = .exited e) ∨ ∃ p', Process.Step may showDouble p p' := by
  cases p with
  | exited e => exact .inl ⟨e, rfl⟩
  | aborted => exact sound.elim
  | simulating pool =>
    right
    rcases Pool.step_or_final (env_answers answers) sound with ⟨pool', step⟩ | final
    · exact ⟨_, .task step⟩
    · obtain ⟨waiting, started, results⟩ := pool
      obtain ⟨rfl, rfl⟩ := List.append_eq_nil_iff.1 final
      exact ⟨_, .print⟩

/-- The exits of a process that simulates are those of the runs of its pool. -/
theorem simulating_exits : ReflTransGen (Process.Step may showDouble) (.simulating pool) (.exited e) ↔
    ∃ results, ReflTransGen (Pool.Step (env may)) pool ⟨[], [], results⟩ ∧
      e = { code := 0, out := printVector showDouble results } := by
  constructor
  · intro run
    generalize start : Process.simulating pool = p at run
    induction run using ReflTransGen.head_induction_on generalizing pool with
    | refl => cases start
    | head step rest ih =>
      subst start
      cases step with
      | task step =>
        obtain ⟨results, run, rfl⟩ := ih rfl
        exact ⟨results, .head step run, rfl⟩
      | print =>
        rcases rest.cases_head with same | ⟨_, step, _⟩
        · exact ⟨_, .refl, (Process.exited.inj same).symm⟩
        · cases step
      | abort =>
        rcases rest.cases_head with same | ⟨_, step, _⟩
        · cases same
        · cases step
  · rintro ⟨results, run, rfl⟩
    have lifted : ReflTransGen (Process.Step may showDouble) (.simulating pool) (.simulating ⟨[], [], results⟩) :=
      ReflTransGen.lift Process.simulating (fun _ _ step => .task step) _ _ run
    exact lifted.tail .print

theorem exited_exits {e' : Exit} :
    ReflTransGen (Process.Step may showDouble) (.exited e') (.exited e) ↔ e = e' := by
  constructor
  · intro run
    rcases run.cases_head with same | ⟨_, step, _⟩
    · exact (Process.exited.inj same).symm
    · cases step
  · rintro rfl
    exact .refl

/-- The results that the tasks can come to. -/
theorem returns_tasks {results : List Results} :
    List.Forall₂ (Prog.Returns (env may)) (tasks selected ngames) results ↔
      List.Forall₂ (Played may ngames) (matrix selected) results := by
  rw [tasks, List.forall₂_map_left_iff]
  exact iff_of_eq (congrArg (fun R => List.Forall₂ R (matrix selected) results)
    (funext fun ij => funext fun r => propext returns_simulateStrategy))

end Runs

/-- What a call with a number of games is for, by what its indices choose. -/
theorem completes_cons {may : MayAnswer} {showDouble : ShowDouble} {name games : List Char} {args : List (List Char)}
    {e : Exit} : Completes may showDouble name (games :: args) e ↔
      (∃ selected results, selectedIndices args = .ok selected ∧
        List.Forall₂ (Played may (nGames games)) (matrix selected) results ∧
        e = { code := 0, out := printVector showDouble results }) ∨
      ∃ message, selectedIndices args = .error message ∧ e = { code := 1, err := message } := by
  constructor
  · intro completes
    cases completes with
    | invalid valid beyond =>
      exact .inr ⟨_, selectedIndices_error.2 ⟨_, _, _, rfl, valid, beyond, rfl⟩, rfl⟩
    | table chosen played => exact .inl ⟨_, _, selectedIndices_ok.2 chosen, played, rfl⟩
  · rintro (⟨selected, results, choice, played, rfl⟩ | ⟨message, choice, rfl⟩)
    · exact .table (selectedIndices_ok.1 choice) played
    · obtain ⟨valid, arg, behind, rfl, all, beyond, rfl⟩ := selectedIndices_error.1 choice
      exact .invalid all beyond

/-- **The exits of the program** are those its arguments ask for. -/
theorem exits_iff {may : MayAnswer} {showDouble : ShowDouble} {name : List Char} {args : List (List Char)} {e : Exit} :
    ReflTransGen (Process.Step may showDouble) (main name args) (.exited e) ↔
      Completes may showDouble name args e := by
  cases args with
  | nil =>
    rw [main, exited_exits]
    constructor
    · rintro rfl
      exact .usage
    · intro completes
      cases completes
      rfl
  | cons games args =>
    rw [main, completes_cons]
    cases choice : selectedIndices args with
    | ok selected =>
      dsimp only
      rw [simulating_exits]
      constructor
      · rintro ⟨results, run, rfl⟩
        exact .inl ⟨selected, results, rfl, returns_tasks.1 (Pool.results_iff.1 run), rfl⟩
      · rintro (⟨_, results, same, played, rfl⟩ | ⟨_, wrong, -⟩)
        · obtain rfl := Except.ok.inj same
          exact ⟨results, Pool.results_iff.2 (returns_tasks.2 played), rfl⟩
        · cases wrong
    | error message =>
      dsimp only
      rw [exited_exits]
      constructor
      · rintro rfl
        exact .inr ⟨message, rfl, rfl⟩
      · rintro (⟨_, _, wrong, -⟩ | ⟨_, same, rfl⟩)
        · cases wrong
        · rw [Except.error.inj same]

/-- **The program as a whole**: for every arguments and every interleaving of its tasks, in which a draw from the
shared generator is one atomic step with any answer, each run ends, none is aborted or stuck, and it exits exactly
as the arguments and the games ask for. The data race on the generator is left out. -/
theorem main_exits (may : MayAnswer) (answers : ∀ policy hand pile, ∃ b, may policy hand pile b)
    (showDouble : ShowDouble) (name : List Char) (args : List (List Char)) :
    (WellFounded fun p' p => Process.Step may showDouble p p') ∧
    (∀ p, ReflTransGen (Process.Step may showDouble) (main name args) p →
      (∃ e, p = .exited e) ∨ ∃ p', Process.Step may showDouble p p') ∧
    ∀ e, ReflTransGen (Process.Step may showDouble) (main name args) (.exited e) ↔
      Completes may showDouble name args e := by
  refine ⟨process_wellFounded may showDouble, ?_, fun e => exits_iff⟩
  intro p run
  exact (steps_sound run (sound_main name args)).progress answers

/-- Every choice of strategies has a table: of one game for each pair, in which the first player sweeps the deck. -/
theorem completes_sweeps {showDouble : ShowDouble} {name : List Char} {args : List (List Char)} {selected : List Index}
    (chosen : Chosen args selected) : ∃ results : List Results, results.length = (matrix selected).length ∧
      Completes (fun _ _ _ _ => True) showDouble name ("1".toList :: args)
        { code := 0, out := printVector showDouble results } := by
  have one : nGames "1".toList = 1 := by decide
  have single (ij : Index × Index) : ∃ r, Played (fun _ _ _ _ => True) (nGames "1".toList) ij r := by
    obtain ⟨g, possible, -⟩ := sweep_possible (fun _ _ _ _ => True) strategies[ij.1] strategies[ij.2]
    exact ⟨_, [g], one.symm, List.forall_mem_singleton.2 possible, rfl⟩
  choose result played using single
  refine ⟨(matrix selected).map result, List.length_map _, .table chosen ?_⟩
  rw [List.forall₂_map_right_iff, List.forall₂_same]
  exact fun ij _ => played ij

/-- A million games between two strategies, of which the second does not exist, and one game for each pair of
the first and the third. -/
theorem main_exits_invalid :
    ReflTransGen (Process.Step (fun _ _ _ _ => True) fun _ => "-nan".toList)
      (main "war".toList ["0".toList, "8".toList, "9".toList])
      (.exited { code := 1, err := "Invalid strategy index 9 (max allowed 8)\n".toList }) ∧
    ∃ results : List Results, results.length = 4 ∧
      ReflTransGen (Process.Step (fun _ _ _ _ => True) fun _ => "-nan".toList)
        (main "war".toList ["1".toList, "0".toList, "2".toList])
        (.exited { code := 0, out := printVector (fun _ => "-nan".toList) results }) := by
  have exits (args : List (List Char)) (e : Exit) := (main_exits (fun _ _ _ _ => True) (fun _ _ _ => ⟨true, trivial⟩)
    (fun _ => "-nan".toList) "war".toList args).2.2 e
  constructor
  · rw [exits]
    exact @Completes.invalid _ _ _ "0".toList ["8".toList] "9".toList [] (by decide) (by decide)
  · have chosen : Chosen ["0".toList, "2".toList] [⟨0, by decide⟩, ⟨2, by decide⟩] := by
      rw [Chosen, if_neg (List.cons_ne_nil _ _)]
      decide
    obtain ⟨results, length, completes⟩ := completes_sweeps chosen
    refine ⟨results, length, ?_⟩
    rw [exits]
    exact completes

/-! ## The rows of the table -/

/-- The row of as many games. -/
structure Listed.Counts (row : Listed) (ngames : Nat) : Prop where
  games : row.ngames = ngames
  tallies : ngames < 2 ^ 32 → row.p1 + row.p2 + row.tie = ngames
  hands : row.nhands ≤ ngames * (8 * kMaxRounds)

section Rows

variable {may : MayAnswer} {showDouble : ShowDouble} {name games arg : List Char} {args : List (List Char)}
  {selected : List Index} {ngames : Nat} {ij : Index × Index} {r : Results} {results : List Results} {e : Exit}

/-- The number of games fits a `size_t`. -/
theorem nGames_lt (arg : List Char) : nGames arg < 2 ^ 64 := by
  have value : strtoul arg < 2 ^ 64 := by
    rw [strtoul]
    dsimp only
    split
    · omega
    · split <;> omega
  rw [nGames, kGameCount]
  split <;> omega

/-- The index of a strategy is its id. -/
theorem id_strategies (i : Index) : strategies[i].id = i := by
  have all : ∀ i : Index, strategies[i].id = i := by decide
  exact all i

/-- **What a result says of its games.** -/
theorem Played.row (played : Played may ngames ij r) (small : ngames < 2 ^ 64) :
    (r.s1, r.s2) = (ij.1.val, ij.2.val) ∧ r.Fits ∧ (r.listed showDouble).Counts ngames := by
  obtain ⟨played, rfl, possible, rfl⟩ := played
  have index (i : Index) : i.val < 2 ^ 64 := Nat.lt_trans i.2 (by decide)
  have ids := id_strategies
  have tallies := aggregate_tallies strategies[ij.1] strategies[ij.2] played
  have hands : (played.map fun g => g.result.nhands).sum ≤ played.length * (8 * kMaxRounds) :=
    sum_map_le played _ _ fun g within => (possible g within).recorded.hands
  rw [aggregate_eq] at tallies ⊢
  refine ⟨Prod.ext (ids ij.1) (ids ij.2), ?_, rfl, ?_, ?_⟩
  · exact ⟨(ids ij.1).trans_lt (index ij.1), (ids ij.2).trans_lt (index ij.2), Nat.mod_lt _ (by decide),
      Nat.mod_lt _ (by decide), Nat.mod_lt _ (by decide), Nat.mod_lt _ (by decide), small⟩
  · intro few
    exact tallies.2 fun w => Nat.lt_of_le_of_lt List.countP_le_length few
  · refine Nat.le_trans (Nat.mod_le _ _) ?_
    rwa [War.hands, List.map_map]

/-- The rows stand in the order of the pairs. -/
theorem rows_of_played (played : List.Forall₂ (Played may ngames) (matrix selected) results)
    (small : ngames < 2 ^ 64) :
    results.map (fun r => (r.s1, r.s2)) = (matrix selected).map (fun ij => (ij.1.val, ij.2.val)) ∧
      ∀ r ∈ results, r.Fits ∧ (r.listed showDouble).Counts ngames := by
  generalize matrix selected = pairs at played
  induction played with
  | nil => exact ⟨rfl, fun r within => absurd within List.not_mem_nil⟩
  | cons first _ ih =>
    obtain ⟨labels, fits, counts⟩ := @Played.row may showDouble _ _ _ first small
    obtain ⟨rest, others⟩ := ih
    rw [List.map_cons, List.map_cons, labels, rest]
    exact ⟨rfl, List.forall_mem_cons.2 ⟨⟨fits, counts⟩, others⟩⟩

end Rows

/-- **What is printed can be read back**: whatever the interleaving, the table of a call has the titles and a row
for every pair of chosen strategies, in the order of the pairs, and each row accounts for all its games. -/
theorem main_rows (may : MayAnswer) (showDouble : ShowDouble) (separates : showDouble.Separates)
    (name games : List Char) (args : List (List Char)) {e : Exit}
    (exit : ReflTransGen (Process.Step may showDouble) (main name (games :: args)) (.exited e)) (success : e.code = 0) :
    ∃ selected rows, Chosen args selected ∧ readCsv e.out = some (titles, rows) ∧ pending '\n' e.out = [] ∧
      rows.map (fun row => (row.s1, row.s2)) = (matrix selected).map (fun ij => (ij.1.val, ij.2.val)) ∧
      ∀ row ∈ rows, row.Counts (nGames games) := by
  rcases completes_cons.1 (exits_iff.1 exit) with ⟨selected, results, choice, played, rfl⟩ | ⟨message, -, rfl⟩
  · obtain ⟨labels, counts⟩ := @rows_of_played may showDouble _ _ _ played (nGames_lt games)
    obtain ⟨read, closed⟩ := readCsv_printVector separates fun r within => (counts r within).1
    refine ⟨selected, _, selectedIndices_ok.1 choice, read, closed, ?_, ?_⟩
    · rw [List.map_map]
      exact labels
    · intro row within
      obtain ⟨r, inResults, rfl⟩ := List.mem_map.1 within
      exact (counts r inResults).2
  · cases success

/-- Whole averages, and what x86 prints for an average of no cards. -/
def wholeDouble : ShowDouble := fun average => average.elim "-nan".toList fun v => decimal v.floor.toNat

theorem wholeDouble_separates : wholeDouble.Separates := by
  intro average
  cases average with
  | none => exact ⟨show Plain "-nan".toList by decide, show ',' ∉ "-nan".toList by decide⟩
  | some v => exact separate_decimal _

/-- One game between the first strategy and itself, in which the first player sweeps the deck. -/
theorem main_rows_sweep : ∃ e, ReflTransGen (Process.Step (fun _ _ _ _ => True) wholeDouble)
      (main "war".toList ["1".toList, "0".toList]) (.exited e) ∧
    ∃ rows, readCsv e.out = some (titles, rows) ∧ rows.map (fun row => (row.s1, row.s2)) = [(0, 0)] := by
  obtain ⟨i, zero⟩ : ∃ i : Index, i.val = 0 := ⟨⟨0, by decide⟩, rfl⟩
  have argument : ["0".toList].map strtoul = [0] := by decide
  have chosen : Chosen ["0".toList] [i] := by
    rw [Chosen, if_neg (List.cons_ne_nil _ _), argument, List.map_singleton, zero]
  obtain ⟨results, -, completes⟩ := @completes_sweeps wholeDouble "war".toList _ _ chosen
  have exit := exits_iff.2 completes
  obtain ⟨selected, rows, chosen', read, -, labels, -⟩ := main_rows _ wholeDouble wholeDouble_separates "war".toList
    "1".toList ["0".toList] exit rfl
  rw [Chosen, if_neg (List.cons_ne_nil _ _), argument] at chosen'
  obtain ⟨j, rest, rfl, value, tail⟩ := List.map_eq_cons_iff.1 chosen'.symm
  obtain rfl := List.map_eq_nil_iff.1 tail
  refine ⟨_, exit, rows, read, ?_⟩
  rw [labels]
  simp [matrix, value]

end Maskset.War
