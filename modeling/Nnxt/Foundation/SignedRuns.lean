import Mathlib.Algebra.BigOperators.Group.List.Basic
import Mathlib.Algebra.Order.Ring.Int
import Mathlib.Data.List.Induction

/-!
# Runs of one sign

Entries with a signed change each. What is held is the sum of the changes, and
the open run is the part of the list since that sum was last zero or of the
other sign.
-/

namespace SignedRuns

set_option autoImplicit false

universe u

variable {α : Type u} (change : α → Int)

def net (xs : List α) : Int := (xs.map change).sum

/-- A change that leaves less than was held, and of the same sign. -/
def Reduces (held delta : Int) : Prop :=
  (held + delta).sign = held.sign ∧ (held + delta).natAbs < held.natAbs

/-- The first entry of `run` opens or turns what `before` left, and every later
one keeps its sign. -/
structure OpenRun (before run : List α) : Prop where
  isOpen : net change (before ++ run) ≠ 0
  opens : (net change before).sign ≠ (net change (before ++ run)).sign
  keeps : ∀ part, part ≠ [] → part <+: run →
    (net change (before ++ part)).sign = (net change (before ++ run)).sign

/-- No entry of the run reduces what is held when it arrives. -/
def Grows (before run : List α) : Prop :=
  ∀ part a rest, run = part ++ a :: rest → ¬ Reduces (net change (before ++ part)) (change a)

theorem sign_eq_sign_iff {a b : Int} : a.sign = b.sign ↔ (0 < a ↔ 0 < b) ∧ (a < 0 ↔ b < 0) := by
  rcases Int.lt_trichotomy a 0 with ha | ha | ha <;> rcases Int.lt_trichotomy b 0 with hb | hb | hb
  all_goals simp [Int.sign_eq_one_of_pos, Int.sign_eq_neg_one_of_neg, *]
  all_goals omega

variable {change} {before run xs : List α} {a : α}

@[simp] theorem net_nil : net change [] = 0 := rfl

@[simp] theorem net_append (xs ys : List α) :
    net change (xs ++ ys) = net change xs + net change ys := by
  simp [net]

@[simp] theorem net_singleton (a : α) : net change [a] = change a := by
  simp [net]

theorem OpenRun.ne_nil (h : OpenRun change before run) : run ≠ [] := by
  intro hnil
  apply h.opens
  rw [hnil, List.append_nil]

/-- An entry that opens a position, or turns it, starts a run of its own. -/
theorem openRun_singleton (hopen : net change (before ++ [a]) ≠ 0)
    (hsign : (net change before).sign ≠ (net change (before ++ [a])).sign) :
    OpenRun change before [a] := by
  refine ⟨hopen, hsign, ?_⟩
  intro part hne hprefix
  rcases List.prefix_cons_iff.mp hprefix with hnil | ⟨rest, hpart, hrest⟩
  · exact absurd hnil hne
  · rw [hpart, List.prefix_nil.mp hrest]

theorem OpenRun.extend (h : OpenRun change before run)
    (hsign : (net change (before ++ run ++ [a])).sign = (net change (before ++ run)).sign) :
    OpenRun change before (run ++ [a]) := by
  have hassoc : before ++ run ++ [a] = before ++ (run ++ [a]) := List.append_assoc _ _ _
  rw [hassoc] at hsign
  refine ⟨?_, ?_, ?_⟩
  · intro hzero
    rw [hzero, Int.sign_zero] at hsign
    exact h.isOpen (Int.sign_eq_zero_iff_zero.mp hsign.symm)
  · rw [hsign]
    exact h.opens
  · intro part hne hprefix
    rcases List.prefix_concat_iff.mp hprefix with hall | hpart
    · rw [hall]
    · rw [hsign]
      exact h.keeps part hne hpart

/-- What is held, when it is anything, has an open run. -/
theorem exists_openRun (hopen : net change xs ≠ 0) :
    ∃ before run, xs = before ++ run ∧ OpenRun change before run := by
  induction xs using List.reverseRecOn with
  | nil => exact absurd net_nil hopen
  | append_singleton xs a ih =>
    by_cases hsign : (net change xs).sign = (net change (xs ++ [a])).sign
    · have hxs : net change xs ≠ 0 := by
        intro hzero
        rw [hzero, Int.sign_zero] at hsign
        exact hopen (Int.sign_eq_zero_iff_zero.mp hsign.symm)
      obtain ⟨before, run, hsplit, hrun⟩ := ih hxs
      rw [hsplit] at hsign
      refine ⟨before, run ++ [a], ?_, hrun.extend hsign.symm⟩
      rw [hsplit, List.append_assoc]
    · exact ⟨xs, [a], rfl, openRun_singleton hopen hsign⟩

/-- Of two open runs of one list the longer cannot start earlier. -/
theorem OpenRun.part_eq_nil {part : List α} (h : OpenRun change before (part ++ run))
    (h' : OpenRun change (before ++ part) run) : part = [] := by
  apply Decidable.of_not_not
  intro hne
  have hkeeps := h.keeps part hne (List.prefix_append part run)
  rw [← List.append_assoc] at hkeeps
  exact h'.opens hkeeps

theorem OpenRun.unique {before' run' : List α} (h : OpenRun change before run)
    (h' : OpenRun change before' run') (hsplit : before ++ run = before' ++ run') :
    before = before' ∧ run = run' := by
  rcases List.append_eq_append_iff.mp hsplit with ⟨part, hbefore, hrun⟩ | ⟨part, hbefore, hrun⟩
  · rw [hrun] at h
    rw [hbefore] at h'
    have hnil := h.part_eq_nil h'
    subst hnil
    exact ⟨by rw [hbefore, List.append_nil], hrun⟩
  · rw [hrun] at h'
    rw [hbefore] at h
    have hnil := h'.part_eq_nil h
    subst hnil
    exact ⟨by rw [hbefore, List.append_nil], hrun.symm⟩

theorem Grows.of_append (h : Grows change before (run ++ [a])) : Grows change before run := by
  intro part b rest hsplit
  apply h part b (rest ++ [a])
  rw [hsplit, List.append_assoc, List.cons_append]

theorem Grows.last (h : Grows change before (run ++ [a])) :
    ¬ Reduces (net change (before ++ run)) (change a) := h run a [] rfl

end SignedRuns
