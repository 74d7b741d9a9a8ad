import Mathlib.Logic.Function.Basic

/-!
# Programs that ask their environment

A program is a finite tree: it returns a value, stops at a fault, or puts a
request to its environment and goes on with the answer. Nothing is fixed about
the environment. The tree is read in three ways:

* `Returns E m a`, `Faults E m f`, `Asks E m q`: some run against an environment
  that answers within `E` returns `a`, stops at `f`, makes the request `q`;
* `wp C m Q`: every run within the contract `C` keeps to it and returns in `Q`;
* `run o m s`: the one run against an oracle `o` with its own state.

`wp_iff` ties the second reading to the first; `run_returns` says that single runs
are among the possible ones and `run_scripted` that every possible one is a single run.
-/

namespace Maskset.Logic
set_option autoImplicit false

/-- The requests a program can make and the type of the answer to each. -/
structure Signature where
  Req : Type
  Ans : Req → Type

/-- A program over `S` with faults `Φ` and results `α`. -/
inductive Prog (S : Signature) (Φ α : Type) where
  | done (a : α)
  | fault (f : Φ)
  | ask (q : S.Req) (k : S.Ans q → Prog S Φ α)

/-- The answers an environment may give to each request. -/
abbrev Env (S : Signature) := (q : S.Req) → S.Ans q → Prop

/-- The environment that may give every answer. -/
def Env.any {S : Signature} : Env S := fun _ _ => True

/-- What a program may count on and what it may do: the answers it can get,
the requests it may make and the faults it may stop at. -/
structure Contract (S : Signature) (Φ : Type) where
  allow : Env S
  asked : S.Req → Prop
  fault : Φ → Prop

/-- No fault is excused. -/
def Contract.safe {S : Signature} {Φ : Type} (E : Env S) : Contract S Φ :=
  ⟨E, fun _ => True, fun _ => False⟩

namespace Prog

variable {S : Signature} {Φ α β γ σ : Type}

/-- Sequencing: the second program starts from what the first returns. -/
def bind : Prog S Φ α → (α → Prog S Φ β) → Prog S Φ β
  | done a, g => g a
  | fault f, _ => fault f
  | ask q k, g => ask q fun r => (k r).bind g

instance : Monad (Prog S Φ) where
  pure := done
  bind := bind

@[simp] theorem fault_bind (f : Φ) (g : α → Prog S Φ β) : (fault f >>= g) = fault f := rfl
instance : LawfulMonad (Prog S Φ) := LawfulMonad.mk' (Prog S Φ)
  (by
    intro α m
    induction m with
    | done a => rfl
    | fault f => rfl
    | ask q k ih => exact congrArg (ask q) (funext ih))
  (fun _ _ => rfl)
  (by
    intro α β γ m g h
    induction m with
    | done a => rfl
    | fault f => rfl
    | ask q k ih => exact congrArg (ask q) (funext ih))

@[simp] theorem map_fault (g : α → β) (f : Φ) : g <$> (fault f : Prog S Φ α) = fault f := rfl

/-! ## What may happen -/

/-- Some run of `m` within `E` returns the value. -/
def Returns (E : Env S) : Prog S Φ α → α → Prop
  | done a, b => a = b
  | fault _, _ => False
  | ask q k, b => ∃ r, E q r ∧ Returns E (k r) b

/-- Some run of `m` within `E` stops at the fault. -/
def Faults (E : Env S) : Prog S Φ α → Φ → Prop
  | done _, _ => False
  | fault f, g => f = g
  | ask q k, g => ∃ r, E q r ∧ Faults E (k r) g

/-- Some run of `m` within `E` makes the request. -/
def Asks (E : Env S) : Prog S Φ α → S.Req → Prop
  | done _, _ => False
  | fault _, _ => False
  | ask q k, p => q = p ∨ ∃ r, E q r ∧ Asks E (k r) p

variable {E : Env S}

@[simp] theorem returns_pure {a b : α} : Returns E (pure a : Prog S Φ α) b ↔ a = b := Iff.rfl
@[simp] theorem returns_fault {f : Φ} {b : α} : ¬ Returns E (fault f : Prog S Φ α) b := id
theorem returns_bind {m : Prog S Φ α} {g : α → Prog S Φ β} {b : β} :
    Returns E (m >>= g) b ↔ ∃ a, Returns E m a ∧ Returns E (g a) b := by
  induction m with
  | done a => exact ⟨fun h => ⟨a, rfl, h⟩, fun ⟨_, e, h⟩ => e ▸ h⟩
  | fault f => exact ⟨False.elim, fun ⟨_, h, _⟩ => h⟩
  | ask q k ih =>
    constructor
    · rintro ⟨r, allowed, h⟩
      obtain ⟨a, first, second⟩ := (ih r).1 h
      exact ⟨a, ⟨r, allowed, first⟩, second⟩
    · rintro ⟨a, ⟨r, allowed, first⟩, second⟩
      exact ⟨r, allowed, (ih r).2 ⟨a, first, second⟩⟩

/-! ## Contracts -/

/-- Every run of `m` within the contract keeps to it and returns in `Q`. -/
def wp (C : Contract S Φ) : Prog S Φ α → (α → Prop) → Prop
  | done a, Q => Q a
  | fault f, _ => C.fault f
  | ask q k, Q => C.asked q ∧ ∀ r, C.allow q r → wp C (k r) Q

variable {C : Contract S Φ} {Q Q' : α → Prop}

@[simp] theorem wp_pure {a : α} : wp C (pure a) Q ↔ Q a := Iff.rfl
@[simp] theorem wp_fault {f : Φ} : wp C (fault f) Q ↔ C.fault f := Iff.rfl
/-- The rule of sequencing. -/
theorem wp_bind {m : Prog S Φ α} {g : α → Prog S Φ β} {Q : β → Prop} :
    wp C (m >>= g) Q ↔ wp C m fun a => wp C (g a) Q := by
  induction m with
  | done a => exact Iff.rfl
  | fault f => exact Iff.rfl
  | ask q k ih => exact and_congr_right fun _ => forall_congr' fun r => imp_congr_right fun _ => ih r

/-- The rule of consequence. -/
theorem wp_mono {m : Prog S Φ α} (weaker : ∀ a, Q a → Q' a) (h : wp C m Q) : wp C m Q' := by
  induction m with
  | done a => exact weaker a h
  | fault f => exact h
  | ask q k ih => exact ⟨h.1, fun r allowed => ih r (h.2 r allowed)⟩

/-- Sequencing after a program that has been specified. -/
theorem wp_seq {m : Prog S Φ α} {g : α → Prog S Φ β} {R : β → Prop} (first : wp C m Q)
    (rest : ∀ a, Q a → wp C (g a) R) : wp C (m >>= g) R :=
  wp_bind.2 (wp_mono rest first)

/-- The rule of weaker contracts. -/
theorem wp_weaken {C' : Contract S Φ} {m : Prog S Φ α} (allow : ∀ q r, C'.allow q r → C.allow q r)
    (asked : ∀ q, C.asked q → C'.asked q) (fault : ∀ f, C.fault f → C'.fault f) (h : wp C m Q) : wp C' m Q := by
  induction m with
  | done a => exact h
  | fault f => exact fault f h
  | ask q k ih => exact ⟨asked q h.1, fun r allowed => ih r (h.2 r (allow q r allowed))⟩

theorem wp_iff {m : Prog S Φ α} :
    wp C m Q ↔ (∀ a, Returns C.allow m a → Q a) ∧ (∀ f, Faults C.allow m f → C.fault f) ∧
      ∀ q, Asks C.allow m q → C.asked q := by
  induction m with
  | done a =>
    exact ⟨fun h => ⟨fun b e => e ▸ h, fun _ => False.elim, fun _ => False.elim⟩, fun h => h.1 a rfl⟩
  | fault f =>
    exact ⟨fun h => ⟨fun _ => False.elim, fun g e => e ▸ h, fun _ => False.elim⟩, fun h => h.2.1 f rfl⟩
  | ask q k ih =>
    constructor
    · rintro ⟨asked, h⟩
      refine ⟨?_, ?_, ?_⟩
      · rintro a ⟨r, allowed, ret⟩
        exact ((ih r).1 (h r allowed)).1 a ret
      · rintro f ⟨r, allowed, stop⟩
        exact ((ih r).1 (h r allowed)).2.1 f stop
      · rintro p (rfl | ⟨r, allowed, req⟩)
        · exact asked
        · exact ((ih r).1 (h r allowed)).2.2 p req
    · rintro ⟨ret, stop, req⟩
      exact ⟨req q (.inl rfl), fun r allowed => (ih r).2
        ⟨fun a h => ret a ⟨r, allowed, h⟩, fun f h => stop f ⟨r, allowed, h⟩,
          fun p h => req p (.inr ⟨r, allowed, h⟩)⟩⟩

/-- What every result has may be added. -/
theorem wp_and_returns {m : Prog S Φ α} (h : wp C m Q) (results : ∀ a, Returns C.allow m a → Q' a) :
    wp C m fun a => Q a ∧ Q' a := by
  obtain ⟨ret, stop, req⟩ := wp_iff.1 h
  exact wp_iff.2 ⟨fun a returned => ⟨ret a returned, results a returned⟩, stop, req⟩

/-- A safe program never faults. -/
theorem wp_safe_iff {m : Prog S Φ α} :
    wp (.safe E) m Q ↔ (∀ a, Returns E m a → Q a) ∧ ∀ f, ¬ Faults E m f := by
  rw [wp_iff]
  exact and_congr_right fun _ => ⟨fun h => h.1, fun h => ⟨h, fun _ _ => trivial⟩⟩

/-- Two continuations that agree on every value `m` can return are interchangeable. -/
theorem bind_congr_returns {m : Prog S Φ α} {g g' : α → Prog S Φ β}
    (same : ∀ a, Returns .any m a → g a = g' a) : m >>= g = m >>= g' := by
  induction m with
  | done a => exact same a rfl
  | fault f => rfl
  | ask q k ih =>
    exact congrArg (ask q) (funext fun r => ih r fun a ret => same a ⟨r, trivial, ret⟩)

/-! ## Single runs -/

/-- The run of `m` in which the oracle `o` answers every request from its state. -/
def run (o : σ → (q : S.Req) → S.Ans q × σ) : Prog S Φ α → σ → Except Φ α × σ
  | done a, s => (.ok a, s)
  | fault f, s => (.error f, s)
  | ask q k, s => run o (k (o s q).1) (o s q).2

theorem run_map (o : σ → (q : S.Req) → S.Ans q × σ) (g : α → β) (m : Prog S Φ α) (s : σ) :
    run o (g <$> m) s = ((run o m s).1.map g, (run o m s).2) := by
  induction m generalizing s with
  | done a => rfl
  | fault f => rfl
  | ask q k ih => exact ih _ _

/-- The requests of the run, in their order. -/
def asked (o : σ → (q : S.Req) → S.Ans q × σ) : Prog S Φ α → σ → List S.Req
  | done _, _ => []
  | fault _, _ => []
  | ask q k, s => q :: asked o (k (o s q).1) (o s q).2

theorem mem_asked_bind {o : σ → (q : S.Req) → S.Ans q × σ} {m : Prog S Φ α} {g : α → Prog S Φ β} {s : σ}
    {p : S.Req} :
    p ∈ asked o (m >>= g) s ↔ p ∈ asked o m s ∨ ∃ a s', run o m s = (.ok a, s') ∧ p ∈ asked o (g a) s' := by
  induction m generalizing s with
  | done a =>
    constructor
    · intro rest
      exact .inr ⟨a, s, rfl, rest⟩
    · rintro (h | ⟨a', s', first, rest⟩)
      · exact absurd h List.not_mem_nil
      · cases first
        exact rest
  | fault f =>
    constructor
    · intro h
      exact absurd h List.not_mem_nil
    · rintro (h | ⟨a', s', first, -⟩)
      · exact absurd h List.not_mem_nil
      · cases first
  | ask q k ih =>
    change p ∈ q :: asked o (k (o s q).1 >>= g) (o s q).2 ↔ p ∈ q :: asked o (k (o s q).1) (o s q).2 ∨ _
    rw [List.mem_cons, List.mem_cons, ih, or_assoc]
    exact Iff.rfl

/-- What a run asks is among the requests that may be made. -/
theorem asks_of_asked {o : σ → (q : S.Req) → S.Ans q × σ} (within : ∀ s q, E q (o s q).1) {m : Prog S Φ α} {s : σ}
    {p : S.Req} (h : p ∈ asked o m s) : Asks E m p := by
  induction m generalizing s with
  | done a => exact absurd h List.not_mem_nil
  | fault f => exact absurd h List.not_mem_nil
  | ask q k ih =>
    rcases List.mem_cons.1 h with rfl | later
    · exact .inl rfl
    · exact .inr ⟨_, within s q, ih _ later⟩

/-- A safe program returns in every run. -/
theorem run_of_safe {o : σ → (q : S.Req) → S.Ans q × σ} {m : Prog S Φ α} (safe : wp (.safe .any) m Q) (s : σ) :
    ∃ a s', run o m s = (.ok a, s') ∧ Q a := by
  induction m generalizing s with
  | done a => exact ⟨a, s, rfl, safe⟩
  | fault f => exact safe.elim
  | ask q k ih => exact ih _ (safe.2 _ trivial) _

/-- What an oracle's run returns is among the possible results. -/
theorem run_returns {o : σ → (q : S.Req) → S.Ans q × σ} (within : ∀ s q, E q (o s q).1)
    {m : Prog S Φ α} {s : σ} {a : α} (h : (run o m s).1 = .ok a) : Returns E m a := by
  induction m generalizing s with
  | done b => exact Except.ok.inj h
  | fault f => cases h
  | ask q k ih => exact ⟨_, within s q, ih _ h⟩

/-- The result of a run that has been evaluated. -/
theorem returns_of_run {o : σ → (q : S.Req) → S.Ans q × σ} (within : ∀ s q, E q (o s q).1)
    {m : Prog S Φ α} {s : σ} {a : α} (result : (run o m s).1.toOption = some a) : Returns E m a := by
  cases ended : (run o m s).1 with
  | error f =>
    rw [ended] at result
    cases result
  | ok b =>
    rw [ended] at result
    obtain rfl := Option.some.inj result
    exact run_returns within ended

/-- The oracle that gives one answer after the other and is `idle` in the end. -/
def scripted (idle : (q : S.Req) → S.Ans q) :
    List ((q : S.Req) → S.Ans q) → (q : S.Req) → S.Ans q × List ((q : S.Req) → S.Ans q)
  | [], q => (idle q, [])
  | answer :: script, q => (answer q, script)

/-- Every possible result is what some script comes to. -/
theorem run_scripted (idle : (q : S.Req) → S.Ans q) {m : Prog S Φ α} {a : α} (ret : Returns E m a) :
    ∃ script, ∀ rest, run (scripted idle) m (script ++ rest) = (.ok a, rest) := by
  classical
  induction m with
  | done b =>
    obtain rfl := returns_pure.1 ret
    exact ⟨[], fun rest => rfl⟩
  | fault f => exact ret.elim
  | ask q k ih =>
    obtain ⟨r, -, ret⟩ := ret
    obtain ⟨script, follows⟩ := ih r ret
    refine ⟨Function.update idle q r :: script, ?_⟩
    intro rest
    change run (scripted idle) (k (Function.update idle q r q)) (script ++ rest) = _
    rw [Function.update_self]
    exact follows rest

end Prog

end Maskset.Logic
