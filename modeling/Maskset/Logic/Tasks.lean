import Mathlib.Data.List.Forall2
import Mathlib.Data.Prod.Lex
import Mathlib.Logic.Hydra
import Maskset.Logic.Prog

/-!
# Tasks

A parent starts programs one after the other and then waits for their results in the same
order, while each program that was started goes on by itself, its requests answered in any
interleaving with those of the others. Every such run ends (`Pool.wellFounded`), with safe
programs none is stuck (`Pool.step_or_final`), and what the parent holds in the end is, in
the order of the start, one result of each program (`Pool.results_iff`).
-/

namespace Maskset.Logic
set_option autoImplicit false

open Relation

variable {S : Signature} {Φ α : Type}

namespace Prog

variable {E : Env S} {p p' : Prog S Φ α} {a : α} {Q : α → Prop}

/-- A request is answered. -/
inductive Step (E : Env S) : Prog S Φ α → Prog S Φ α → Prop where
  | answer {q : S.Req} {k : S.Ans q → Prog S Φ α} {r : S.Ans q} (allowed : E q r) : Step E (.ask q k) (k r)

theorem Step.returns (step : Step E p p') (ret : Returns E p' a) : Returns E p a := by
  cases step with
  | answer allowed => exact ⟨_, allowed, ret⟩

theorem Step.safe (step : Step E p p') (safe : wp (.safe E) p Q) : wp (.safe E) p' Q := by
  cases step with
  | answer allowed => exact safe.2 _ allowed

/-- A program ends, whatever the answers are. -/
theorem step_wellFounded (E : Env S) : WellFounded fun p' p : Prog S Φ α => Step E p p' := by
  constructor
  intro p
  induction p with
  | done a => exact ⟨_, fun _ step => nomatch step⟩
  | fault f => exact ⟨_, fun _ step => nomatch step⟩
  | ask q k ih =>
    constructor
    intro p' step
    cases step with
    | answer => exact ih _

/-- What a program can return is where its steps can lead. -/
theorem Returns.steps (ret : Returns E p a) : ReflTransGen (Step E) p (.done a) := by
  induction p with
  | done b =>
    obtain rfl := returns_pure.1 ret
    exact .refl
  | fault f => exact ret.elim
  | ask q k ih =>
    obtain ⟨r, allowed, ret⟩ := ret
    exact .head (.answer allowed) (ih r ret)

end Prog

/-- The programs that wait for their start, those that were started and whose results are not
taken yet, and the results. -/
structure Pool (S : Signature) (Φ α : Type) where
  waiting : List (Prog S Φ α)
  started : List (Prog S Φ α) := []
  results : List α := []

namespace Pool

/-- The programs whose results are still to come. -/
def left (pool : Pool S Φ α) : List (Prog S Φ α) := pool.started ++ pool.waiting

/-- A step of the parent or of one program. -/
inductive Step (E : Env S) : Pool S Φ α → Pool S Φ α → Prop where
  | start {p waiting started results} : Step E ⟨p :: waiting, started, results⟩ ⟨waiting, started ++ [p], results⟩
  | answer {waiting before p p' after results} (step : p.Step E p') :
      Step E ⟨waiting, before ++ p :: after, results⟩ ⟨waiting, before ++ p' :: after, results⟩
  | take {a started results} : Step E ⟨[], .done a :: started, results⟩ ⟨[], started, results ++ [a]⟩

variable {E : Env S} {pool pool' : Pool S Φ α} {tasks : List (Prog S Φ α)} {results later : List α} {Q : α → Prop}

/-! ## Every run ends -/

/-- A started program steps or is done with: the multiset of the started programs gets smaller. -/
theorem wellFounded (E : Env S) : WellFounded fun pool' pool : Pool S Φ α => Step E pool pool' := by
  have smaller := (Prog.step_wellFounded (Φ := Φ) (α := α) E).cutExpand
  have order := WellFounded.prod_lex (measure (List.length (α := Prog S Φ α))).wf smaller
  refine Subrelation.wf ?_ (InvImage.wf (fun pool : Pool S Φ α => (pool.waiting, (pool.started : Multiset _))) order)
  intro pool' pool step
  cases step with
  | start => exact .left _ _ (Nat.lt_succ_self _)
  | @answer waiting before p p' after results step =>
    refine .right _ ⟨{p'}, p, ?_, ?_⟩
    · intro other within
      rwa [Multiset.mem_singleton.1 within]
    · have apart (r : Prog S Φ α) :
          ((before ++ r :: after : List _) : Multiset _) = ((before ++ after : List _) : Multiset _) + {r} := by
        rw [Multiset.add_comm, Multiset.singleton_add]
        exact Multiset.coe_eq_coe.2 List.perm_middle
      show ((before ++ p' :: after : List _) : Multiset _) + {p} = ((before ++ p :: after : List _) : Multiset _) + {p'}
      rw [apart p', apart p, add_right_comm]
  | @take a started results =>
    refine .right _ ⟨0, .done a, ?_, ?_⟩
    · intro other within
      exact absurd within (Multiset.notMem_zero other)
    · show (started : Multiset (Prog S Φ α)) + {.done a} = ((Prog.done a :: started : List _) : Multiset _) + 0
      rw [add_zero, ← Multiset.coe_singleton, Multiset.coe_add, Multiset.coe_eq_coe]
      exact List.perm_append_comm

/-! ## Nothing is stuck -/

theorem Step.safe (step : Step E pool pool') (safe : ∀ p ∈ pool.left, p.wp (.safe E) Q) :
    ∀ p ∈ pool'.left, p.wp (.safe E) Q := by
  intro p' within
  cases step with
  | start => exact safe p' (by simpa [left] using within)
  | take => exact safe p' (List.mem_append_left _ (List.mem_cons_of_mem _ (by simpa [left] using within)))
  | @answer waiting before p p'' after results step =>
    have within : p' = p'' ∨ p' ∈ before ++ after ++ waiting := by
      simp only [left, List.mem_append, List.mem_cons] at within ⊢
      tauto
    rcases within with rfl | other
    · exact step.safe (safe p (by simp [left]))
    · apply safe p'
      simp only [left, List.mem_append, List.mem_cons] at other ⊢
      tauto

/-- **Progress**: where every request has an answer, a pool of safe programs can step until the last result
is taken. -/
theorem step_or_final (answers : ∀ q, ∃ r, E q r) (safe : ∀ p ∈ pool.left, p.wp (.safe E) Q) :
    (∃ pool', Step E pool pool') ∨ pool.left = [] := by
  obtain ⟨waiting, started, results⟩ := pool
  cases waiting with
  | cons p waiting => exact .inl ⟨_, .start⟩
  | nil =>
    cases started with
    | nil => exact .inr rfl
    | cons p started =>
      cases p with
      | done a => exact .inl ⟨_, .take⟩
      | fault f => exact (safe (.fault f) (List.mem_append_left _ List.mem_cons_self)).elim
      | ask q k =>
        obtain ⟨r, allowed⟩ := answers q
        exact .inl ⟨_, @Step.answer _ _ _ E [] [] _ _ started results (.answer allowed)⟩

/-! ## The results -/

/-- The results that the pool can come to. -/
def Yields (E : Env S) (pool : Pool S Φ α) (results : List α) : Prop :=
  ∃ later, results = pool.results ++ later ∧ List.Forall₂ (Prog.Returns E) pool.left later

/-- A step of one program leaves nothing new to come. -/
theorem returned_replace {before after : List (Prog S Φ α)} {p p' : Prog S Φ α} (step : p.Step E p')
    (returned : List.Forall₂ (Prog.Returns E) (before ++ p' :: after) later) :
    List.Forall₂ (Prog.Returns E) (before ++ p :: after) later := by
  induction before generalizing later with
  | nil =>
    cases returned with
    | cons first rest => exact .cons (step.returns first) rest
  | cons p before ih =>
    cases returned with
    | cons first rest => exact .cons first (ih rest)

theorem Step.yields (step : Step E pool pool') (yields : pool'.Yields E results) : pool.Yields E results := by
  obtain ⟨later, rfl, returned⟩ := yields
  cases step with
  | start =>
    refine ⟨later, rfl, ?_⟩
    simpa [left] using returned
  | take => exact ⟨_ :: later, List.append_assoc .., .cons rfl returned⟩
  | @answer waiting before p p' after results step =>
    refine ⟨later, rfl, ?_⟩
    simp only [left, List.append_assoc, List.cons_append] at returned ⊢
    exact returned_replace step returned

theorem yields_of_steps (run : ReflTransGen (Step E) pool pool') (yields : pool'.Yields E results) :
    pool.Yields E results := by
  induction run using ReflTransGen.head_induction_on with
  | refl => exact yields
  | head step _ ih => exact step.yields ih

/-- The programs are started one after the other. -/
theorem steps_start (waiting started : List (Prog S Φ α)) (results : List α) :
    ReflTransGen (Step E) ⟨waiting, started, results⟩ ⟨[], started ++ waiting, results⟩ := by
  induction waiting generalizing started with
  | nil => rw [List.append_nil]
  | cons p waiting ih =>
    rw [List.append_cons]
    exact .head .start (ih (started ++ [p]))

/-- They are run one after the other. -/
theorem steps_take (returned : List.Forall₂ (Prog.Returns E) tasks later) (results : List α) :
    ReflTransGen (Step E) ⟨[], tasks, results⟩ ⟨[], [], results ++ later⟩ := by
  induction returned generalizing results with
  | nil => rw [List.append_nil]
  | @cons p a tasks later ret _ ih =>
    have run : ReflTransGen (Step E) ⟨[], p :: tasks, results⟩ ⟨[], .done a :: tasks, results⟩ :=
      ReflTransGen.lift (fun p => Pool.mk [] (p :: tasks) results)
        (fun p p' step => @Step.answer _ _ _ E [] [] p p' tasks results step) _ _ ret.steps
    rw [List.append_cons]
    exact run.trans (.head .take (ih (results ++ [a])))

/-- **What the parent takes**, whatever the interleaving: a result of each program, in the order of the
programs; and every such list is what some run comes to. -/
theorem results_iff : ReflTransGen (Step E) ⟨tasks, [], []⟩ ⟨[], [], results⟩ ↔
    List.Forall₂ (Prog.Returns E) tasks results := by
  constructor
  · intro run
    obtain ⟨later, rfl, returned⟩ := yields_of_steps run ⟨[], (List.append_nil _).symm, .nil⟩
    exact returned
  · intro returned
    exact (steps_start tasks [] []).trans (steps_take returned [])

end Pool

end Maskset.Logic
