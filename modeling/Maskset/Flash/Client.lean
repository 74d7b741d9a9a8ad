import Maskset.Flash.Regions

/-!
# Code that uses the flash areas

A client reads and changes the flash through calls of the areas, in range, and writes log
lines in between. What an area holds behind it is what the calls on this area make of it.
-/

namespace Maskset.Flash
set_option autoImplicit false

open Maskset.Logic

/-- From `d` on a client has made these calls and come to the device. -/
inductive Worked (d : Device) : List (Area × Call) → Device → Prop where
  | start : Worked d [] d
  | log {qs e} (before : Worked d qs e) (fmt : String) (args : List LogArg) :
      Worked d qs (e.observe [.log fmt args])
  | call {qs e q t answer} (before : Worked d qs e) (inRange : InRange q.1.1 q.2)
      (served : flashCalls e q = some (t, answer)) : Worked d (qs ++ [q]) t

namespace Worked

variable {d e f : Device} {qs qs' : List (Area × Call)} {a : Area}

/-- One client behind the other. -/
theorem trans (first : Worked d qs e) (second : Worked e qs' f) : Worked d (qs ++ qs') f := by
  induction second with
  | start => rwa [List.append_nil]
  | log _ fmt args ih => exact ih.log fmt args
  | call _ inRange served ih =>
    rw [← List.append_assoc]
    exact ih.call inRange served

/-- A run of the calls, if they are in range. -/
theorem of_serve {as : List (Area × Answer)} (inRange : ∀ q ∈ qs, InRange q.1.1 q.2)
    (run : flashCalls.serve d qs = some (e, as)) : Worked d qs e := by
  induction qs generalizing d as with
  | nil =>
    obtain ⟨rfl, -⟩ := Prod.mk.inj (Option.some.inj run)
    exact .start
  | cons q qs ih =>
    obtain ⟨first, rest⟩ := List.forall_mem_cons.1 inRange
    obtain ⟨t, answer, as', served, others, -⟩ := Service.serve_cons_iff.1 run
    have called : Worked d [q] t := Worked.start.call first served
    exact called.trans (ih rest others)

/-- Only log lines. -/
theorem logs (lines : List String) : Worked d [] (lines.foldl (fun e line => e.observe [.log line []]) d) := by
  suffices go : ∀ e, Worked d [] e → Worked d [] (lines.foldl (fun e line => e.observe [.log line []]) e) from
    go d .start
  induction lines with
  | nil => exact fun _ worked => worked
  | cons line lines ih => exact fun _ worked => ih _ (worked.log line [])

/-- **The areas serve the calls as regions do.** -/
theorem served (worked : Worked d qs e) : ∃ as, regions.serve (contents d) qs = some (contents e, as) := by
  induction worked with
  | start => exact ⟨[], rfl⟩
  | log _ _ _ ih => exact ih
  | @call qs e q t answer _ inRange served ih =>
    obtain ⟨as, before⟩ := ih
    have region := flash_refines e q inRange
    rw [served] at region
    exact ⟨_, Service.serve_append before (Service.serve_cons_iff.2 ⟨contents t, answer, [], region.symm, rfl, rfl⟩)⟩

/-- **An area serves its own calls.** -/
theorem area (worked : Worked d qs e) (a : Area) :
    ∃ as, Service.serve Region.call (contents d a) (Service.about a qs) = some (contents e a, as) := by
  obtain ⟨as, served⟩ := worked.served
  exact ⟨_, Service.serve_product served a⟩

/-- An area without calls holds what it has held. -/
theorem untouched (worked : Worked d qs e) (others : ∀ q ∈ qs, q.1 ≠ a) : contents e a = contents d a := by
  obtain ⟨as, served⟩ := worked.area a
  have none : Service.about a qs = [] := by
    rw [Service.about, List.filter_eq_nil_iff.2 (fun q within => by simpa using others q within)]
    rfl
  rw [none] at served
  exact (Prod.mk.inj (Option.some.inj served)).1.symm

end Worked

end Maskset.Flash
