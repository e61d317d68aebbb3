import Mathlib.Data.List.DropRight

/-!
# Lists trimmed at both ends

The elements at either end that satisfy a predicate are cut off. A list is what is
left of it between two runs of such elements, and putting more of them around a list
makes no difference.
-/

namespace Trimming

set_option autoImplicit false

universe u
variable {α : Type u} (p : α → Bool)

def trimmed (l : List α) : List α := (l.dropWhile p).rdropWhile p

/-- Nothing to cut off. -/
structure Bare (l : List α) : Prop where
  first : ∀ x ∈ l.head?, p x = false
  last : ∀ x ∈ l.getLast?, p x = false

variable {p} {l before after : List α}

theorem bare_of_ends {x y : α} (hfirst : l.head? = some x) (hlast : l.getLast? = some y)
    (hx : p x = false) (hy : p y = false) : Bare p l where
  first := by
    intro z hz
    rw [hfirst] at hz
    cases hz
    exact hx
  last := by
    intro z hz
    rw [hlast] at hz
    cases hz
    exact hy

theorem rdropWhile_append_of_pos (h : ∀ x ∈ after, p x = true) :
    (l ++ after).rdropWhile p = l.rdropWhile p := by
  rw [List.rdropWhile, List.reverse_append, List.dropWhile_append_of_pos]
  · rfl
  · intro x hx
    exact h x (List.mem_reverse.mp hx)

/-- What stands before an element that stays, stays. -/
theorem rdropWhile_append_of_last {x : α} (hx : p x = false) :
    ((l ++ [x]) ++ after).rdropWhile p = (l ++ [x]) ++ after.rdropWhile p := by
  induction after using List.reverseRecOn with
  | nil =>
    rw [List.append_nil, List.rdropWhile_nil, List.append_nil, List.rdropWhile_concat_neg]
    rw [hx]
    exact Bool.false_ne_true
  | append_singleton after y ih =>
    rw [← List.append_assoc]
    cases hy : p y with
    | true => rw [List.rdropWhile_concat_pos _ _ _ hy, List.rdropWhile_concat_pos _ _ _ hy, ih]
    | false =>
      have hstays : ¬ p y = true := by
        rw [hy]
        exact Bool.false_ne_true
      rw [List.rdropWhile_concat_neg _ _ _ hstays, List.rdropWhile_concat_neg _ _ _ hstays,
        ← List.append_assoc]

theorem dropWhile_of_first (h : ∀ x ∈ l.head?, p x = false) : l.dropWhile p = l := by
  cases l with
  | nil => rfl
  | cons x l =>
    have hx := h x rfl
    rw [List.dropWhile_cons_of_neg]
    rw [hx]
    exact Bool.false_ne_true

theorem rdropWhile_of_last (h : ∀ x ∈ l.getLast?, p x = false) : l.rdropWhile p = l := by
  rw [List.rdropWhile_eq_self_iff]
  intro hl
  rw [h _ (List.getLast?_eq_getLast_of_ne_nil hl), Bool.not_eq_true]

theorem Bare.trimmed_eq (h : Bare p l) : trimmed p l = l := by
  rw [trimmed, dropWhile_of_first h.first, rdropWhile_of_last h.last]

theorem trimmed_pad (hbefore : ∀ x ∈ before, p x = true) (hafter : ∀ x ∈ after, p x = true) :
    trimmed p (before ++ l ++ after) = trimmed p l := by
  rw [trimmed, List.append_assoc, List.dropWhile_append_of_pos hbefore, List.dropWhile_append]
  split
  · rename_i hempty
    have hnone : l.dropWhile p = [] := List.isEmpty_iff.mp hempty
    rw [trimmed, hnone, List.dropWhile_eq_nil_iff.mpr hafter]
  · rw [rdropWhile_append_of_pos hafter, trimmed]

/-- Only what comes behind a bare list can be cut off. -/
theorem Bare.trimmed_append (h : Bare p l) (hne : l ≠ []) (after : List α) :
    trimmed p (l ++ after) = l ++ after.rdropWhile p := by
  have hlast := h.last _ (List.getLast?_eq_getLast_of_ne_nil hne)
  have hsplit : l = l.dropLast ++ [l.getLast hne] := (List.dropLast_append_getLast hne).symm
  have hfirst : ∀ x ∈ (l ++ after).head?, p x = false := by
    rw [List.head?_append_of_ne_nil l hne]
    exact h.first
  rw [trimmed, dropWhile_of_first hfirst, hsplit, rdropWhile_append_of_last hlast]

theorem trimmed_rdropWhile (p : α → Bool) (l : List α) :
    trimmed p (l.rdropWhile p) = trimmed p l := by
  have hafter : ∀ x ∈ l.rtakeWhile p, p x = true := fun x hx => List.mem_rtakeWhile_imp hx
  have hpad := @trimmed_pad α p (l.rdropWhile p) [] _ (List.forall_mem_nil _) hafter
  rw [List.nil_append, List.rdropWhile_append_rtakeWhile] at hpad
  exact hpad.symm

/-- What has been cut off stood at the two ends. -/
theorem exists_pad (p : α → Bool) (l : List α) :
    ∃ before after, l = before ++ trimmed p l ++ after ∧
      (∀ x ∈ before, p x = true) ∧ ∀ x ∈ after, p x = true := by
  refine ⟨l.takeWhile p, (l.dropWhile p).rtakeWhile p, ?_, ?_, ?_⟩
  · rw [trimmed, List.append_assoc, List.rdropWhile_append_rtakeWhile,
      List.takeWhile_append_dropWhile]
  · exact fun x hx => List.mem_takeWhile_imp hx
  · exact fun x hx => List.mem_rtakeWhile_imp hx

theorem bare_trimmed (p : α → Bool) (l : List α) : Bare p (trimmed p l) where
  first := by
    intro x hx
    obtain ⟨after, hafter⟩ := List.rdropWhile_prefix p (l.dropWhile p)
    have hnot := List.head?_dropWhile_not p l
    rw [← hafter, List.head?_append, ← trimmed, Option.mem_def.mp hx, Option.some_or] at hnot
    exact hnot
  last := by
    intro x hx
    obtain ⟨hne, rfl⟩ := List.mem_getLast?_eq_getLast hx
    rw [← Bool.not_eq_true]
    exact List.rdropWhile_last_not p _ hne

end Trimming
