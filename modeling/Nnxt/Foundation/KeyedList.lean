import Mathlib.Data.List.Nodup
import Mathlib.Logic.Function.Basic

/-!
# Lists as tables

A list whose entries carry a key, seen as the function from keys to entries.
While no key occurs twice the order of the list does not matter, and each
operation on the list is one on the function.
-/

namespace KeyedList

set_option autoImplicit false

variable {α κ : Type} [DecidableEq κ] (key : α → κ)

/-- No key occurs twice. -/
def Keyed (xs : List α) : Prop := (xs.map key).Nodup

instance (xs : List α) : Decidable (Keyed key xs) := inferInstanceAs (Decidable (List.Nodup _))

def entry (xs : List α) (k : κ) : Option α := xs.find? fun x => key x = k

variable {key} {xs ys : List α} {x : α} {k : κ}

omit [DecidableEq κ] in
theorem keyed_nil : Keyed key ([] : List α) := List.nodup_nil

omit [DecidableEq κ] in
theorem Keyed.perm (h : Keyed key xs) (hp : xs.Perm ys) : Keyed key ys :=
  (hp.map key).nodup_iff.mp h

omit [DecidableEq κ] in
theorem Keyed.inj (h : Keyed key xs) {x y : α} (hx : x ∈ xs) (hy : y ∈ xs)
    (heq : key x = key y) : x = y := List.inj_on_of_nodup_map h hx hy heq

omit [DecidableEq κ] in
theorem Keyed.sublist (h : Keyed key xs) (hs : ys.Sublist xs) : Keyed key ys :=
  List.Nodup.sublist (hs.map key) h

omit [DecidableEq κ] in
theorem Keyed.append_singleton (h : Keyed key xs) (hnew : key x ∉ xs.map key) :
    Keyed key (xs ++ [x]) := by
  rw [Keyed, List.map_append, List.map_singleton]
  refine List.nodup_append.mpr ⟨h, List.nodup_singleton _, ?_⟩
  intro a ha b hb heq
  rw [List.mem_singleton.mp hb] at heq
  exact hnew (heq ▸ ha)

omit [DecidableEq κ] in
theorem map_key_map {f : α → α} (hf : ∀ x, key (f x) = key x) :
    (xs.map f).map key = xs.map key := by
  rw [List.map_map]
  exact List.map_congr_left fun x _ => hf x

theorem entry_eq_none_iff : entry key xs k = none ↔ k ∉ xs.map key := by
  simp [entry]

theorem mem_of_entry (h : entry key xs k = some x) : x ∈ xs := List.mem_of_find?_eq_some h

theorem key_of_entry (h : entry key xs k = some x) : key x = k := by
  have hfound := List.find?_some h
  exact of_decide_eq_true hfound

theorem Keyed.entry_eq_some_iff (h : Keyed key xs) :
    entry key xs k = some x ↔ x ∈ xs ∧ key x = k := by
  constructor
  · intro hx
    exact ⟨mem_of_entry hx, key_of_entry hx⟩
  · rintro ⟨hx, rfl⟩
    cases hfound : entry key xs (key x) with
    | none => exact absurd (List.mem_map_of_mem hx) (entry_eq_none_iff.mp hfound)
    | some y => rw [h.inj (mem_of_entry hfound) hx (key_of_entry hfound)]

theorem Keyed.filter_eq_entry (h : Keyed key xs) (k : κ) :
    (xs.filter fun x => key x = k) = (entry key xs k).toList := by
  induction xs with
  | nil => rfl
  | cons x xs ih =>
    obtain ⟨hnew, hrest⟩ := List.nodup_cons.mp h
    have hih := ih hrest
    by_cases hx : key x = k
    · have hnone : entry key xs k = none := entry_eq_none_iff.mpr (hx ▸ hnew)
      rw [hnone] at hih
      simp [entry, hx, hih]
    · simp only [entry] at hih ⊢
      simp [hx, hih]

theorem Keyed.entry_perm (h : Keyed key xs) (hp : xs.Perm ys) : entry key ys = entry key xs := by
  funext k
  apply Option.ext
  intro x
  rw [(h.perm hp).entry_eq_some_iff, h.entry_eq_some_iff, hp.mem_iff]

theorem entry_append_singleton (hnew : key x ∉ xs.map key) :
    entry key (xs ++ [x]) = Function.update (entry key xs) (key x) (some x) := by
  funext k
  by_cases hk : k = key x
  · have hnone : xs.find? (fun y => key y = key x) = none := entry_eq_none_iff.mpr hnew
    rw [hk, Function.update_self, entry, List.find?_append, hnone, Option.none_or]
    simp
  · have hne : ¬ key x = k := fun h => hk h.symm
    rw [Function.update_of_ne hk, entry, List.find?_append]
    simp [entry, hne]

theorem entry_map {f : α → α} (hf : ∀ x, key (f x) = key x) (k : κ) :
    entry key (xs.map f) k = (entry key xs k).map f := by
  rw [entry, List.find?_map]
  simp only [Function.comp_def, hf, entry]

theorem Keyed.entry_eraseIdx (h : Keyed key xs) {i : Nat} (hi : i < xs.length) :
    entry key (xs.eraseIdx i) = Function.update (entry key xs) (key xs[i]) none := by
  have herased : xs[i] ∉ xs.eraseIdx i := by
    intro hmem
    obtain ⟨j, hne, hj⟩ := List.mem_eraseIdx_iff_getElem?.mp hmem
    obtain ⟨hlt, hget⟩ := List.getElem?_eq_some_iff.mp hj
    exact hne ((List.Nodup.getElem_inj_iff (List.Nodup.of_map key h)).mp hget)
  funext k
  apply Option.ext
  intro x
  rw [(h.sublist (List.eraseIdx_sublist xs i)).entry_eq_some_iff]
  by_cases hk : k = key xs[i]
  · rw [hk, Function.update_self]
    refine iff_of_false ?_ (fun hnone => by cases hnone)
    rintro ⟨hx, hkey⟩
    have heq := h.inj (List.mem_of_mem_eraseIdx hx) (List.getElem_mem hi) hkey
    exact herased (heq ▸ hx)
  · rw [Function.update_of_ne hk, h.entry_eq_some_iff]
    refine and_congr_left ?_
    rintro rfl
    constructor
    · exact List.mem_of_mem_eraseIdx
    · intro hx
      obtain ⟨j, hlt, hget⟩ := List.getElem_of_mem hx
      refine List.mem_eraseIdx_iff_getElem?.mpr ⟨j, ?_, by rw [List.getElem?_eq_getElem hlt, hget]⟩
      rintro rfl
      exact hk (congrArg key hget.symm)

end KeyedList
