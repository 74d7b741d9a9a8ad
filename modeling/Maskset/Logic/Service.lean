import Mathlib.Logic.Function.Basic
import Mathlib.Data.List.Basic

/-!
# Services

A service answers a request and changes its state, or stops for good (`none`). One service
refines another when an abstraction function turns every call of the first into the same
call of the second; then it does so for every sequence of calls. In a product each request
goes to one component, and what happens at a component depends on its own requests only.
-/

namespace Maskset.Logic
set_option autoImplicit false

abbrev Service (σ ρ α : Type) := σ → ρ → Option (σ × α)

namespace Service

variable {σ τ ρ α : Type}

/-- The requests one after the other, with their answers. -/
def serve (S : Service σ ρ α) : σ → List ρ → Option (σ × List α)
  | s, [] => some (s, [])
  | s, q :: qs => do
    let (s, a) ← S s q
    let (s, as) ← serve S s qs
    pure (s, a :: as)

section Serve

variable {S : Service σ ρ α} {s s' : σ} {q : ρ} {qs : List ρ} {as : List α}

theorem serve_cons_iff : S.serve s (q :: qs) = some (s', as) ↔
    ∃ t a as', S s q = some (t, a) ∧ S.serve t qs = some (s', as') ∧ as = a :: as' := by
  rw [serve]
  constructor
  · intro run
    obtain ⟨⟨t, a⟩, first, rest⟩ := Option.bind_eq_some_iff.1 run
    obtain ⟨⟨u, as'⟩, others, last⟩ := Option.bind_eq_some_iff.1 rest
    obtain ⟨rfl, rfl⟩ := Prod.mk.inj (Option.some.inj last)
    exact ⟨t, a, as', first, others, rfl⟩
  · rintro ⟨t, a, as', first, others, rfl⟩
    rw [first, Option.bind_eq_bind, Option.bind_some]
    dsimp only
    rw [others]
    rfl

/-- Requests that go on where others have ended. -/
theorem serve_append {qs' : List ρ} {as' : List α} {u : σ} (before : S.serve s qs = some (s', as))
    (behind : S.serve s' qs' = some (u, as')) : S.serve s (qs ++ qs') = some (u, as ++ as') := by
  induction qs generalizing s as with
  | nil =>
    obtain ⟨rfl, rfl⟩ := Prod.mk.inj (Option.some.inj before)
    exact behind
  | cons q qs ih =>
    obtain ⟨t, a, as, first, others, rfl⟩ := serve_cons_iff.1 before
    exact serve_cons_iff.2 ⟨t, a, as ++ as', first, ih others, rfl⟩

/-- The rule of invariants, for what every accepted request keeps. -/
theorem serve_invariant {Inv : σ → Prop} (start : Inv s) (run : S.serve s qs = some (s', as))
    (keeps : ∀ t q u a, Inv t → q ∈ qs → S t q = some (u, a) → Inv u) : Inv s' := by
  induction qs generalizing s as with
  | nil =>
    obtain ⟨rfl, -⟩ := Prod.mk.inj (Option.some.inj run)
    exact start
  | cons q qs ih =>
    obtain ⟨t, a, as', first, others, -⟩ := serve_cons_iff.1 run
    have next : Inv t := keeps s q t a start List.mem_cons_self first
    exact ih next others fun t q u a inv within => keeps t q u a inv (List.mem_cons_of_mem _ within)

/-- The value that the last request to set one has set, or the one before them all. -/
def last {β : Type} (sets : ρ → Option β) (value : β) (qs : List ρ) : β :=
  qs.foldl (fun value q => (sets q).getD value) value

/-- **The rule of last values**: where every accepted request sets the value or leaves it, a run ends with the
last one that was set. -/
theorem serve_last {β : Type} {Inv : σ → Prop} {value : σ → β} {sets : ρ → Option β} (start : Inv s)
    (run : S.serve s qs = some (s', as))
    (step : ∀ t q u a, Inv t → S t q = some (u, a) → Inv u ∧ value u = (sets q).getD (value t)) :
    value s' = last sets (value s) qs := by
  induction qs generalizing s as with
  | nil =>
    obtain ⟨rfl, -⟩ := Prod.mk.inj (Option.some.inj run)
    rfl
  | cons q qs ih =>
    obtain ⟨t, a, as', first, others, -⟩ := serve_cons_iff.1 run
    obtain ⟨inv, set⟩ := step s q t a start first
    rw [ih inv others, set]
    rfl

/-- Where every request is accepted, every sequence is. -/
theorem serve_isSome (accepts : ∀ t q, (S t q).isSome) (s : σ) (qs : List ρ) : (S.serve s qs).isSome := by
  induction qs generalizing s with
  | nil => rfl
  | cons q qs ih =>
    obtain ⟨⟨t, a⟩, first⟩ := Option.isSome_iff_exists.1 (accepts s q)
    obtain ⟨⟨u, as⟩, others⟩ := Option.isSome_iff_exists.1 (ih t)
    exact Option.isSome_iff_exists.2 ⟨_, serve_cons_iff.2 ⟨t, a, as, first, others, rfl⟩⟩

end Serve

/-! ## Refinement -/

/-- On the requests that are `ok` the calls of `C` are those of `A`, stopping included. -/
def Refines (C : Service σ ρ α) (A : Service τ ρ α) (abs : σ → τ) (ok : ρ → Prop) : Prop :=
  ∀ s q, ok q → (C s q).map (Prod.map abs id) = A (abs s) q

/-- **A refinement of the calls is one of the runs.** -/
theorem Refines.serve {C : Service σ ρ α} {A : Service τ ρ α} {abs : σ → τ} {ok : ρ → Prop}
    (refines : Refines C A abs ok) {qs : List ρ} (meets : ∀ q ∈ qs, ok q) (s : σ) :
    (C.serve s qs).map (Prod.map abs id) = A.serve (abs s) qs := by
  induction qs generalizing s with
  | nil => rfl
  | cons q qs ih =>
    obtain ⟨first, rest⟩ := List.forall_mem_cons.1 meets
    have call := refines s q first
    rw [Service.serve, Service.serve, ← call]
    cases C s q with
    | none => rfl
    | some answer =>
      obtain ⟨t, a⟩ := answer
      have others := ih rest t
      simp only [Option.map_some, Prod.map_apply, id_eq, Option.bind_eq_bind, Option.bind_some]
      rw [← others]
      cases C.serve t qs <;> rfl

/-! ## Products -/

section Product

variable {ι : Type} [DecidableEq ι] {κ : ι → Type}

/-- The service on all components: a request names its component, and so does the answer. -/
def product (A : (i : ι) → Service (κ i) ρ α) : Service ((i : ι) → κ i) (ι × ρ) (ι × α) := fun s q =>
  (A q.1 (s q.1) q.2).map fun answer => (Function.update s q.1 answer.1, q.1, answer.2)

/-- The part of a sequence that is about the component. -/
def about {β : Type} (i : ι) (xs : List (ι × β)) : List β := (xs.filter fun x => x.1 = i).map Prod.snd

variable {β : Type} {i j : ι} {b : β} {xs : List (ι × β)}

theorem about_cons_self : about i ((i, b) :: xs) = b :: about i xs := by
  rw [about, List.filter_cons_of_pos (by simp)]
  rfl

theorem about_cons_other (other : j ≠ i) : about i ((j, b) :: xs) = about i xs := by
  rw [about, List.filter_cons_of_neg (by simpa using other)]
  rfl

/-- **A component serves its own requests**, as if there were no others. -/
theorem serve_product {A : (i : ι) → Service (κ i) ρ α} {s s' : (i : ι) → κ i} {qs : List (ι × ρ)}
    {as : List (ι × α)} (run : (product A).serve s qs = some (s', as)) (i : ι) :
    (A i).serve (s i) (about i qs) = some (s' i, about i as) := by
  induction qs generalizing s as with
  | nil =>
    obtain ⟨rfl, rfl⟩ := Prod.mk.inj (Option.some.inj run)
    rfl
  | cons q qs ih =>
    obtain ⟨t, a, as', first, others, rfl⟩ := serve_cons_iff.1 run
    obtain ⟨⟨next, answer⟩, call, rest⟩ := Option.map_eq_some_iff.1 first
    obtain ⟨rfl, rfl⟩ := Prod.mk.inj rest
    have tail := ih others
    obtain ⟨j, q⟩ := q
    by_cases here : j = i
    · subst here
      rw [Function.update_self] at tail
      rw [about_cons_self, about_cons_self]
      exact serve_cons_iff.2 ⟨next, answer, _, call, tail, rfl⟩
    · rw [Function.update_of_ne fun same => here same.symm] at tail
      rw [about_cons_other here, about_cons_other here]
      exact tail

end Product

end Service

end Maskset.Logic
