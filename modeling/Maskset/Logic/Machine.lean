import Mathlib.Data.List.Induction

/-!
# Machines and their runs

A machine says what an event makes of a state, and `none` where the event cannot
happen. `Run` are the runs whose every event meets a condition in the state it
happens in; `Run.invariant` is the rule for what such runs preserve, `exec` the
run on a given list of events, and `total` the rule for machines that never stop.
-/

namespace Maskset.Logic
set_option autoImplicit false

abbrev Machine (σ ε : Type) := σ → ε → Option σ

namespace Machine

variable {σ ε : Type} (M : Machine σ ε)

/-- A run from `s`, in which every event meets `ok`. -/
inductive Run (ok : σ → ε → Prop) (s : σ) : List ε → σ → Prop where
  | nil : Run ok s [] s
  | snoc {es t e u} (before : Run ok s es t) (meets : ok t e) (step : M t e = some u) : Run ok s (es ++ [e]) u

variable {M} {ok : σ → ε → Prop} {s t : σ} {es : List ε}

/-- The rule of invariants. -/
theorem Run.invariant {Inv : σ → Prop} (run : M.Run ok s es t) (start : Inv s)
    (keeps : ∀ t e u, Inv t → ok t e → M t e = some u → Inv u) : Inv t := by
  induction run with
  | nil => exact start
  | snoc before meets step ih => exact keeps _ _ _ ih meets step

/-- A run under a condition is one under a weaker one. -/
theorem Run.mono {ok' : σ → ε → Prop} (run : M.Run ok s es t) (weaker : ∀ t e, ok t e → ok' t e) :
    M.Run ok' s es t := by
  induction run with
  | nil => exact .nil
  | snoc before meets step ih => exact ih.snoc (weaker _ _ meets) step

/-- The run on the events in their order, as long as they meet `ok`. -/
def exec (M : Machine σ ε) (ok : σ → ε → Prop) [∀ s e, Decidable (ok s e)] (s : σ) (es : List ε) : Option σ :=
  es.foldlM (fun s e => if ok s e then M s e else none) s

theorem exec_run [∀ s e, Decidable (ok s e)] (h : M.exec ok s es = some t) : M.Run ok s es t := by
  induction es using List.reverseRecOn generalizing t with
  | nil =>
    obtain rfl : s = t := Option.some.inj h
    exact .nil
  | append_singleton es e ih =>
    simp only [exec, List.foldlM_append, List.foldlM_cons, List.foldlM_nil, Option.bind_eq_bind,
      Option.bind_eq_some_iff] at h
    obtain ⟨u, before, v, step, last⟩ := h
    obtain rfl : v = t := Option.some.inj last
    split at step
    · rename_i meets
      exact (ih before).snoc meets step
    · cases step

/-- Where every step goes through and keeps an invariant of the events so far, every run does. -/
theorem total {able : ε → Prop} {Inv : List ε → σ → Prop} (start : Inv [] s)
    (steps : ∀ es t e, Inv es t → able e → ∃ u, M t e = some u ∧ Inv (es ++ [e]) u) (es : List ε)
    (meets : ∀ e ∈ es, able e) : ∃ t, es.foldlM M s = some t ∧ Inv es t := by
  induction es using List.reverseRecOn with
  | nil => exact ⟨s, rfl, start⟩
  | append_singleton es e ih =>
    obtain ⟨t, run, inv⟩ := ih fun e within => meets e (List.mem_append_left _ within)
    obtain ⟨u, step, inv'⟩ := steps es t e inv (meets e (by simp))
    refine ⟨u, ?_, inv'⟩
    rw [List.foldlM_append, run]
    exact (bind_pure _).trans step

theorem always {Inv : σ → Prop} (start : Inv s) (steps : ∀ t e, Inv t → ∃ u, M t e = some u ∧ Inv u)
    (es : List ε) : ∃ t, es.foldlM M s = some t ∧ Inv t := by
  have steps' : ∀ (es : List ε) t e, Inv t → True → ∃ u, M t e = some u ∧ Inv u := by
    intro _ t e inv _
    exact steps t e inv
  exact @total _ _ M s (fun _ => True) (fun _ t => Inv t) start steps' es fun _ _ => trivial

end Machine

end Maskset.Logic
