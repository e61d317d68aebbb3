import Nnxt.Foundation.Transition

/-!
# Runs with repetitions

A run in which some labels are marked as repetitions, next to the run from which
they are left out. When no repetition moves the state, the two runs agree
everywhere, and so does all that can be read off the state.
-/

namespace Repetition

set_option autoImplicit false

open Transition

universe u v
variable {σ : Type u} {ι : Type v}

inductive Delivery (ι : Type v) where
  | original (i : ι)
  | again (i : ι)

def Delivery.label : Delivery ι → ι
  | .original i => i
  | .again i => i

/-- Everything that is delivered. -/
def labels (ds : List (Delivery ι)) : List ι := ds.map Delivery.label

/-- What is delivered for the first time. -/
def originals (ds : List (Delivery ι)) : List ι :=
  ds.filterMap fun
    | .original i => some i
    | .again _ => none

def Idle (step : σ → ι → σ) (s : σ) (ds : List (Delivery ι)) : Prop :=
  ∀ before i after, ds = before ++ .again i :: after →
    step (run step s (labels before)) i = run step s (labels before)

variable {step : σ → ι → σ} {s : σ} {ds : List (Delivery ι)}

theorem Idle.of_cons {d : Delivery ι} (h : Idle step s (d :: ds)) :
    Idle step (step s d.label) ds := by
  intro before i after hds
  apply h (d :: before) i after
  rw [hds, List.cons_append]

theorem Idle.of_prefix {before : List (Delivery ι)} (h : Idle step s ds) (hpre : before <+: ds) :
    Idle step s before := by
  obtain ⟨rest, rfl⟩ := hpre
  intro earlier i after hbefore
  apply h earlier i (after ++ rest)
  rw [hbefore, List.append_assoc, List.cons_append]

theorem run_labels_eq (h : Idle step s ds) :
    run step s (labels ds) = run step s (originals ds) := by
  induction ds generalizing s with
  | nil => rfl
  | cons d ds ih =>
    have htail := ih h.of_cons
    cases d with
    | original i => exact htail
    | again i =>
      have hidle : step s i = s := h [] i ds rfl
      have hlabel : step s (Delivery.again i).label = s := hidle
      have hcons : labels (.again i :: ds) = i :: labels ds := rfl
      rw [hlabel] at htail
      rw [hcons, run_cons, hidle]
      exact htail

end Repetition
