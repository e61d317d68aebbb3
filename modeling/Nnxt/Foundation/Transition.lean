import Mathlib.Data.List.Infix

/-!
# Runs of a deterministic transition system

`step` is total; a step that is not enabled is modelled by the caller as one
that changes nothing. An interleaving is a list of labels, so a statement about
every list of labels is a statement about every interleaving.
-/

namespace Transition

set_option autoImplicit false

universe u v
variable {σ : Type u} {ι : Type v} (step : σ → ι → σ)

def run (s : σ) (is : List ι) : σ := is.foldl step s

@[simp] theorem run_nil (s : σ) : run step s [] = s := rfl

@[simp] theorem run_cons (s : σ) (i : ι) (is : List ι) :
    run step s (i :: is) = run step (step s i) is := rfl

theorem run_append (s : σ) (is js : List ι) :
    run step s (is ++ js) = run step (run step s is) js := List.foldl_append

/-- `P` holds in every state the run visits, the first one included. -/
def Always (P : σ → Prop) (s : σ) (is : List ι) : Prop :=
  ∀ js, js <+: is → P (run step s js)

/-- Every step of the run meets `guard` in the state it is taken from. -/
def Guarded (guard : σ → ι → Prop) (s : σ) (is : List ι) : Prop :=
  ∀ js i, js ++ [i] <+: is → guard (run step s js) i

variable {step}

theorem always_nil {P : σ → Prop} {s : σ} : Always step P s [] ↔ P s := by
  constructor
  · intro h
    exact h [] (List.prefix_refl [])
  · intro h js hjs
    rw [List.prefix_nil.mp hjs]
    exact h

theorem always_cons {P : σ → Prop} {s : σ} {i : ι} {is : List ι} :
    Always step P s (i :: is) ↔ P s ∧ Always step P (step s i) is := by
  constructor
  · intro h
    refine ⟨h [] (List.nil_prefix), fun js hjs => ?_⟩
    exact h (i :: js) (List.cons_prefix_cons.mpr ⟨rfl, hjs⟩)
  · rintro ⟨h0, h⟩ js hjs
    cases js with
    | nil => exact h0
    | cons j js =>
      obtain ⟨rfl, htail⟩ := List.cons_prefix_cons.mp hjs
      exact h js htail

theorem guarded_nil {guard : σ → ι → Prop} {s : σ} : Guarded step guard s [] := by
  intro js i h
  have hnil := List.prefix_nil.mp h
  simp at hnil

theorem guarded_cons {guard : σ → ι → Prop} {s : σ} {i : ι} {is : List ι} :
    Guarded step guard s (i :: is) ↔ guard s i ∧ Guarded step guard (step s i) is := by
  constructor
  · intro h
    refine ⟨h [] i (List.cons_prefix_cons.mpr ⟨rfl, List.nil_prefix⟩), fun js j hjs => ?_⟩
    exact h (i :: js) j (List.cons_prefix_cons.mpr ⟨rfl, hjs⟩)
  · rintro ⟨h0, h⟩ js j hjs
    cases js with
    | nil =>
      obtain ⟨rfl, _⟩ := List.cons_prefix_cons.mp hjs
      exact h0
    | cons k js =>
      obtain ⟨rfl, htail⟩ := List.cons_prefix_cons.mp hjs
      exact h js j htail

instance decidableGuarded {guard : σ → ι → Prop} [∀ s i, Decidable (guard s i)] :
    (s : σ) → (is : List ι) → Decidable (Guarded step guard s is)
  | _, [] => .isTrue guarded_nil
  | s, i :: is =>
    have : Decidable (Guarded step guard (step s i) is) := decidableGuarded (step s i) is
    decidable_of_iff (guard s i ∧ Guarded step guard (step s i) is) guarded_cons.symm

theorem guarded_of_forall {guard : σ → ι → Prop} {s : σ} {is : List ι}
    (h : ∀ i ∈ is, ∀ t, guard t i) : Guarded step guard s is := by
  intro js i hpre
  exact h i (hpre.subset (List.mem_append_right js (List.mem_singleton.mpr rfl))) _

theorem Guarded.of_prefix {guard : σ → ι → Prop} {s : σ} {is js : List ι}
    (h : Guarded step guard s is) (hjs : js <+: is) : Guarded step guard s js :=
  fun ks i hks => h ks i (hks.trans hjs)

theorem Guarded.of_append {guard : σ → ι → Prop} {s : σ} {is js : List ι}
    (h : Guarded step guard s (is ++ js)) : Guarded step guard (run step s is) js := by
  intro ks i hks
  rw [← run_append]
  apply h
  rw [List.append_assoc]
  exact (List.prefix_append_right_inj is).mpr hks

theorem guarded_append {guard : σ → ι → Prop} {s : σ} {is js : List ι} :
    Guarded step guard s (is ++ js) ↔
      Guarded step guard s is ∧ Guarded step guard (run step s is) js := by
  induction is generalizing s with
  | nil =>
    rw [List.nil_append, run_nil]
    exact ⟨fun h => ⟨guarded_nil, h⟩, And.right⟩
  | cons i is ih => rw [List.cons_append, guarded_cons, guarded_cons, ih, run_cons, and_assoc]

theorem Always.last {P : σ → Prop} {s : σ} {is : List ι} (h : Always step P s is) :
    P (run step s is) := h is (List.prefix_refl is)

theorem Always.mono {P Q : σ → Prop} {s : σ} {is : List ι} (hPQ : ∀ t, P t → Q t)
    (h : Always step P s is) : Always step Q s is :=
  fun js hjs => hPQ _ (h js hjs)

/-- An invariant kept by every guarded step holds along every guarded run. -/
theorem always_of_guarded {Inv : σ → Prop} {guard : σ → ι → Prop}
    (keep : ∀ s i, Inv s → guard s i → Inv (step s i)) {s : σ} {is : List ι}
    (hs : Inv s) (hg : Guarded step guard s is) : Always step Inv s is := by
  induction is generalizing s with
  | nil => exact always_nil.mpr hs
  | cons i is ih =>
    obtain ⟨hi, hg⟩ := guarded_cons.mp hg
    exact always_cons.mpr ⟨hs, ih (keep s i hs hi) hg⟩

theorem always_of_step {Inv : σ → Prop} (keep : ∀ s i, Inv s → Inv (step s i))
    {s : σ} (hs : Inv s) (is : List ι) : Always step Inv s is := by
  have hg : Guarded step (fun _ _ => True) s is := fun _ _ _ => trivial
  exact always_of_guarded (fun s i h _ => keep s i h) hs hg

/-- The exact form: if an unguarded step from the invariant breaks `P` at once,
the runs along which `P` holds are the guarded ones and no others. -/
theorem always_iff_guarded {Inv P : σ → Prop} {guard : σ → ι → Prop}
    (sound : ∀ s, Inv s → P s)
    (keep : ∀ s i, Inv s → guard s i → Inv (step s i))
    (breaks : ∀ s i, Inv s → ¬ guard s i → ¬ P (step s i))
    {s : σ} (hs : Inv s) (is : List ι) :
    Always step P s is ↔ Guarded step guard s is := by
  constructor
  · intro h
    induction is generalizing s with
    | nil => exact guarded_nil
    | cons i is ih =>
      obtain ⟨_, h⟩ := always_cons.mp h
      have hi : guard s i := by
        by_contra hn
        exact breaks s i hs hn (h [] List.nil_prefix)
      exact guarded_cons.mpr ⟨hi, ih (keep s i hs hi) h⟩
  · intro h
    exact (always_of_guarded keep hs h).mono sound

theorem guarded_congr {guard guard' : σ → ι → Prop} (same : ∀ s i, guard s i ↔ guard' s i)
    (s : σ) (is : List ι) : Guarded step guard s is ↔ Guarded step guard' s is :=
  forall₃_congr fun js i _ => same (run step s js) i

/-- Two guards that agree wherever the invariant holds allow the same runs. -/
theorem guarded_iff_of_allowed {Inv : σ → Prop} {allowed guard guard' : σ → ι → Prop}
    (keep : ∀ s i, Inv s → allowed s i → Inv (step s i))
    (same : ∀ s i, Inv s → allowed s i → (guard s i ↔ guard' s i))
    {s : σ} (hs : Inv s) {is : List ι} (hallowed : Guarded step allowed s is) :
    Guarded step guard s is ↔ Guarded step guard' s is := by
  induction is generalizing s with
  | nil => exact ⟨fun _ => guarded_nil, fun _ => guarded_nil⟩
  | cons i is ih =>
    obtain ⟨hi, hrest⟩ := guarded_cons.mp hallowed
    rw [guarded_cons, guarded_cons, same s i hs hi, ih (keep s i hs hi) hrest]

theorem guarded_iff_of_inv {Inv : σ → Prop} {guard guard' : σ → ι → Prop}
    (keep : ∀ s i, Inv s → Inv (step s i)) (same : ∀ s i, Inv s → (guard s i ↔ guard' s i))
    {s : σ} (hs : Inv s) (is : List ι) : Guarded step guard s is ↔ Guarded step guard' s is := by
  have hallowed : Guarded step (fun _ _ => True) s is := fun _ _ _ => trivial
  exact guarded_iff_of_allowed (fun s i h _ => keep s i h) (fun s i h _ => same s i h) hs hallowed

theorem of_run {J P : σ → Prop} (stay : ∀ s i, J s → J (step s i))
    (back : ∀ s i, J s → P (step s i) → P s) {s : σ} (hs : J s) {is : List ι}
    (h : P (run step s is)) : P s := by
  induction is generalizing s with
  | nil => exact h
  | cons i is ih => exact back s i hs (ih (stay s i hs) h)

/-- A bound that only gets harder to meet holds before every step of a run that ends within it. -/
theorem within_of_run {B : σ → Prop} (back : ∀ s i, B (step s i) → B s) {s : σ} {is : List ι}
    (h : B (run step s is)) : B s := by
  exact @of_run σ ι step (fun _ => True) B (fun _ _ h => h) (fun s i _ => back s i) s trivial is h

theorem run_of_guarded_within {Inv B : σ → Prop} {guard : σ → ι → Prop}
    (back : ∀ s i, B (step s i) → B s)
    (keep : ∀ s i, Inv s → B (step s i) → guard s i → Inv (step s i))
    {s : σ} {is : List ι} (hs : Inv s) (hB : B (run step s is))
    (hg : Guarded step guard s is) : Inv (run step s is) := by
  induction is generalizing s with
  | nil => exact hs
  | cons i is ih =>
    obtain ⟨hi, hg⟩ := guarded_cons.mp hg
    exact ih (keep s i hs (within_of_run back hB) hi) hB hg

/-- Within a bound, `P` holds at the end exactly when no step broke it, if each
step decides `P` by the guard. -/
theorem run_iff_guarded_within {J P B : σ → Prop} {guard : σ → ι → Prop}
    (back : ∀ s i, B (step s i) → B s)
    (stay : ∀ s i, J s → B (step s i) → J (step s i))
    (decides : ∀ s i, J s → B (step s i) → (P (step s i) ↔ P s ∧ guard s i))
    {s : σ} {is : List ι} (hs : J s) (hB : B (run step s is)) :
    P (run step s is) ↔ P s ∧ Guarded step guard s is := by
  induction is generalizing s with
  | nil => exact ⟨fun h => ⟨h, guarded_nil⟩, And.left⟩
  | cons i is ih =>
    have hi : B (step s i) := within_of_run back hB
    rw [run_cons, ih (stay s i hs hi) hB, decides s i hs hi, guarded_cons, and_assoc]

theorem run_iff_guarded {J P : σ → Prop} {guard : σ → ι → Prop}
    (stay : ∀ s i, J s → J (step s i))
    (keep : ∀ s i, J s → P s → guard s i → P (step s i))
    (breaks : ∀ s i, J s → P s → ¬ guard s i → ¬ P (step s i))
    (back : ∀ s i, J s → P (step s i) → P s)
    {s : σ} (hs : J s) (hP : P s) (is : List ι) :
    P (run step s is) ↔ Guarded step guard s is := by
  induction is generalizing s with
  | nil => exact ⟨fun _ => guarded_nil, fun _ => hP⟩
  | cons i is ih =>
    rw [guarded_cons]
    constructor
    · intro h
      have hnext : P (step s i) := of_run stay back (stay s i hs) h
      have hi : guard s i := by
        by_contra hn
        exact breaks s i hs hP hn hnext
      exact ⟨hi, (ih (stay s i hs) hnext).mp h⟩
    · rintro ⟨hi, hg⟩
      exact (ih (stay s i hs) (keep s i hs hP hi)).mpr hg

/-- Where every state short of the goal has an allowed step that lowers the measure, the
goal is reached by allowed steps. -/
theorem exists_run_of_measure {Inv Goal : σ → Prop} {allowed : ι → Prop} (measure : σ → Nat)
    (progress : ∀ s, Inv s → ¬ Goal s →
      ∃ i, allowed i ∧ Inv (step s i) ∧ measure (step s i) < measure s)
    {s : σ} (hs : Inv s) :
    ∃ is, (∀ i ∈ is, allowed i) ∧ Inv (run step s is) ∧ Goal (run step s is) := by
  generalize hn : measure s = n
  induction n using Nat.strong_induction_on generalizing s with
  | _ n ih =>
    by_cases hgoal : Goal s
    · exact ⟨[], List.forall_mem_nil _, hs, hgoal⟩
    · obtain ⟨i, hi, hnext, hlt⟩ := progress s hs hgoal
      obtain ⟨is, his, hinv, hreached⟩ := ih _ (hn ▸ hlt) hnext rfl
      exact ⟨i :: is, List.forall_mem_cons.mpr ⟨hi, his⟩, hinv, hreached⟩

/-- How many steps of the run are of the kind `p` tells by the state they are taken from. -/
def countAlong (step : σ → ι → σ) (p : σ → ι → Prop) [∀ s i, Decidable (p s i)] (s : σ) :
    List ι → Nat
  | [] => 0
  | i :: is => (if p s i then 1 else 0) + countAlong step p (step s i) is

/-- Steps that raise a rank that never falls are at most what it rises by. -/
theorem countAlong_le_of_rises {p : σ → ι → Prop} [∀ s i, Decidable (p s i)]
    {guard : σ → ι → Prop} {rank : σ → Nat}
    (grows : ∀ s i, guard s i → rank s ≤ rank (step s i))
    (rises : ∀ s i, guard s i → p s i → rank s < rank (step s i))
    {s : σ} {is : List ι} (h : Guarded step guard s is) :
    rank s + countAlong step p s is ≤ rank (run step s is) := by
  induction is generalizing s with
  | nil => exact Nat.le_refl _
  | cons i is ih =>
    rw [guarded_cons] at h
    have hlater := ih h.2
    rw [countAlong, run_cons]
    split
    · rename_i hp
      have hlt := rises s i h.1 hp
      omega
    · have hle := grows s i h.1
      omega

end Transition
