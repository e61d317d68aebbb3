import Nnxt.Foundation.Transition

/-!
# Runs with the irrelevant inputs taken out

Two runs side by side, one of them without the inputs that do not concern an
observer. The relation between the two states may speak of the inputs still to come.
-/

namespace Unwinding

set_option autoImplicit false

universe u v
variable {σ : Type u} {ι : Type v} {step : σ → ι → σ} {concerns : ι → Prop}
  [DecidablePred concerns]

/-- If an input of no concern keeps the relation on the one side and an input of concern
keeps it on both, the whole run is related to the run without the former. -/
theorem related_run_filter {R : List ι → σ → σ → Prop}
    (elsewhere : ∀ i is s t, ¬ concerns i → R (i :: is) s t → R is (step s i) t)
    (both : ∀ i is s t, concerns i → R (i :: is) s t → R is (step s i) (step t i))
    {is : List ι} {s t : σ} (h : R is s t) :
    R [] (Transition.run step s is)
      (Transition.run step t (is.filter fun i => concerns i)) := by
  induction is generalizing s t with
  | nil => exact h
  | cons i is ih =>
    by_cases hi : concerns i
    · simp only [List.filter_cons, decide_eq_true hi, if_true, Transition.run_cons]
      exact ih (both i is s t hi h)
    · simp only [List.filter_cons, decide_eq_false hi, Bool.false_eq_true, if_false,
        Transition.run_cons]
      exact ih (elsewhere i is s t hi h)

end Unwinding
