import Mathlib.Data.List.AList
import Mathlib.Algebra.BigOperators.Group.List.Basic
import Nnxt.Foundation.FixedWidth

/-!
# Hash maps with an iteration order

A hash map is an association list without repeated keys; the order of its
entries stands for the iteration order, which the language leaves open. Two
maps with permuted entries hold the same data, so a result about every order
is a result about every map in a permutation class.
-/

namespace HashMap

set_option autoImplicit false

universe u v
variable {K : Type u} {V : Type v}

/-- A map and one iteration order of it. -/
abbrev Map (K : Type u) (V : Type v) := AList fun _ : K => V

def values (m : Map K V) : List V := m.entries.map Sigma.snd

/-- The same entries, possibly iterated in another order. -/
def Same (m m' : Map K V) : Prop := m.entries.Perm m'.entries

theorem Same.values_perm {m m' : Map K V} (h : Same m m') : (values m).Perm (values m') :=
  h.map _

section Lookup
variable [DecidableEq K]

theorem Same.lookup_eq {m m' : Map K V} (h : Same m m') (k : K) : m.lookup k = m'.lookup k :=
  AList.perm_lookup h

/-- `get_mut` followed by an update in place. -/
def modify (k : K) (f : V → V) (m : Map K V) : Map K V :=
  match m.lookup k with
  | some v => m.insert k (f v)
  | none => m

theorem modify_of_some {k : K} {f : V → V} {m : Map K V} {v : V} (h : m.lookup k = some v) :
    modify k f m = m.insert k (f v) := by
  simp only [modify, h]

theorem modify_of_none {k : K} {f : V → V} {m : Map K V} (h : m.lookup k = none) :
    modify k f m = m := by
  simp only [modify, h]

@[simp] theorem lookup_modify_self (k : K) (f : V → V) (m : Map K V) :
    (modify k f m).lookup k = (m.lookup k).map f := by
  cases h : m.lookup k with
  | none => rw [modify_of_none h, h, Option.map_none]
  | some v => rw [modify_of_some h, AList.lookup_insert, Option.map_some]

theorem lookup_modify_ne {k k' : K} (hne : k' ≠ k) (f : V → V) (m : Map K V) :
    (modify k f m).lookup k' = m.lookup k' := by
  cases h : m.lookup k with
  | none => rw [modify_of_none h]
  | some v => rw [modify_of_some h, AList.lookup_insert_ne hne]

theorem lookup_modify_ne_none {m : Map K V} {k : K} (k' : K) (f : V → V) (h : m.lookup k ≠ none) :
    (modify k' f m).lookup k ≠ none := by
  by_cases hk : k = k'
  · subst hk
    rw [lookup_modify_self, Ne, Option.map_eq_none_iff]
    exact h
  · rw [lookup_modify_ne hk]
    exact h

theorem lookup_insert_eq (k k' : K) (v : V) (m : Map K V) :
    (m.insert k v).lookup k' = if k' = k then some v else m.lookup k' := by
  by_cases hk : k' = k
  · subst hk
    rw [if_pos rfl, AList.lookup_insert]
  · rw [if_neg hk, AList.lookup_insert_ne hk]

theorem lookup_erase_eq (k k' : K) (m : Map K V) :
    (m.erase k).lookup k' = if k' = k then none else m.lookup k' := by
  by_cases hk : k' = k
  · subst hk
    rw [if_pos rfl, AList.lookup_erase]
  · rw [if_neg hk, AList.lookup_erase_ne hk]

/-- Taking a key away that is not there changes no entry. -/
theorem lookup_of_absent {k : K} {m : Map K V} (h : m.lookup k = none) (k' : K) :
    m.lookup k' = if k' = k then none else m.lookup k' := by
  by_cases hk : k' = k
  · rw [if_pos hk, hk]
    exact h
  · rw [if_neg hk]

theorem erase_of_none {k : K} {m : Map K V} (h : m.lookup k = none) : m.erase k = m := by
  have hk : k ∉ m.entries.keys := by
    rw [← AList.keys, ← AList.mem_keys, ← AList.lookup_eq_none]
    exact h
  exact AList.ext (List.kerase_of_notMem_keys hk)

/-- Taking a new entry away again gives the map as it was. -/
theorem erase_insert_of_none {k : K} {m : Map K V} (h : m.lookup k = none) (v : V) :
    (m.insert k v).erase k = m := by
  have hcons : (m.insert k v).erase k = m.erase k := AList.ext (List.kerase_cons_eq rfl)
  rw [hcons, erase_of_none h]

/-- `values_mut` with the same update for every value. -/
def mapValues (f : V → V) (m : Map K V) : Map K V where
  entries := m.entries.map fun e => ⟨e.1, f e.2⟩
  nodupKeys := by
    have hkeys : (m.entries.map fun e => (⟨e.1, f e.2⟩ : Sigma fun _ : K => V)).keys =
        m.entries.keys := List.map_map
    rw [List.NodupKeys, hkeys]
    exact m.nodupKeys

theorem lookup_mapValues (f : V → V) (m : Map K V) (k : K) :
    (mapValues f m).lookup k = (m.lookup k).map f := by
  have hlist : ∀ es : List (Sigma fun _ : K => V),
      (es.map fun e => (⟨e.1, f e.2⟩ : Sigma fun _ : K => V)).dlookup k =
        (es.dlookup k).map f := by
    intro es
    induction es with
    | nil => rfl
    | cons e es ih =>
      obtain ⟨k', v⟩ := e
      by_cases hk : k = k'
      · subst hk
        rw [List.map_cons, List.dlookup_cons_eq, List.dlookup_cons_eq, Option.map_some]
      · rw [List.map_cons, List.dlookup_cons_ne _ _ hk, List.dlookup_cons_ne _ _ hk, ih]
  exact hlist m.entries

theorem mem_values_iff {m : Map K V} {v : V} : v ∈ values m ↔ ∃ k, m.lookup k = some v := by
  simp only [values, List.mem_map]
  constructor
  · rintro ⟨⟨k, v'⟩, hmem, rfl⟩
    exact ⟨k, AList.mem_lookup_iff.mpr hmem⟩
  · rintro ⟨k, hk⟩
    exact ⟨⟨k, v⟩, AList.mem_lookup_iff.mp hk, rfl⟩

theorem mem_entries_iff {m : Map K V} {k : K} {v : V} :
    Sigma.mk k v ∈ m.entries ↔ m.lookup k = some v := by
  rw [← AList.mem_lookup_iff, Option.mem_def]

theorem entries_perm_cons_erase {m : Map K V} {k : K} {v : V} (h : m.lookup k = some v) :
    m.entries.Perm (⟨k, v⟩ :: (m.erase k).entries) := by
  have hk : k ∈ m.entries.keys := by
    rw [← AList.keys, ← AList.mem_keys, ← AList.lookup_isSome, h]
    rfl
  obtain ⟨b, l₁, l₂, _, hsplit, herase⟩ := List.exists_of_kerase hk
  have hb : b = v := by
    have hmem : Sigma.mk k b ∈ m.entries := by
      rw [hsplit]
      exact List.mem_append_right _ List.mem_cons_self
    have hlook := mem_entries_iff.mp hmem
    rw [h] at hlook
    exact (Option.some.inj hlook).symm
  subst hb
  change m.entries.Perm (⟨k, b⟩ :: List.kerase k m.entries)
  rw [herase, hsplit]
  exact List.perm_middle

end Lookup

section Total
variable (w : V → Nat)

def total (m : Map K V) : Nat := ((values m).map w).sum

theorem total_same {m m' : Map K V} (h : Same m m') : total w m = total w m' :=
  (h.values_perm.map w).sum_eq

variable [DecidableEq K]

theorem total_erase_of_some {m : Map K V} {k : K} {v : V} (h : m.lookup k = some v) :
    total w m = w v + total w (m.erase k) := by
  have hp := ((entries_perm_cons_erase h).map Sigma.snd).map w
  simpa only [total, values, List.map_cons, List.sum_cons] using hp.sum_eq

theorem total_erase_of_none {m : Map K V} {k : K} (h : m.lookup k = none) :
    total w (m.erase k) = total w m := by
  rw [erase_of_none h]

theorem total_insert (m : Map K V) (k : K) (v : V) :
    total w (m.insert k v) = w v + total w (m.erase k) := by
  simp only [total, values, AList.entries_insert, List.map_cons, List.sum_cons]
  rfl

theorem total_insert_of_none {m : Map K V} {k : K} (h : m.lookup k = none) (v : V) :
    total w (m.insert k v) = total w m + w v := by
  rw [total_insert, total_erase_of_none w h, Nat.add_comm]

/-- A weight that the entries of some keys alone have is a sum over these keys. -/
theorem total_eq_sum {keys : List K} (hkeys : keys.Nodup) {m : Map K V}
    (hrest : ∀ k v, m.lookup k = some v → k ∉ keys → w v = 0) :
    total w m = (keys.map fun k => ((m.lookup k).map w).getD 0).sum := by
  induction keys generalizing m with
  | nil =>
    refine List.sum_eq_zero fun n hn => ?_
    obtain ⟨v, hv, rfl⟩ := List.mem_map.mp hn
    obtain ⟨k, hk⟩ := mem_values_iff.mp hv
    exact hrest k v hk List.not_mem_nil
  | cons k keys ih =>
    obtain ⟨hk, hkeys⟩ := List.nodup_cons.mp hkeys
    have hothers : ∀ k' v, (m.erase k).lookup k' = some v → k' ∉ keys → w v = 0 := by
      intro k' v hv hk'
      by_cases hsame : k' = k
      · rw [hsame, AList.lookup_erase] at hv
        cases hv
      · rw [AList.lookup_erase_ne hsame] at hv
        exact hrest k' v hv fun hmem => (List.mem_cons.mp hmem).elim hsame hk'
    have herased : (keys.map fun k' => (((m.erase k).lookup k').map w).getD 0) =
        keys.map fun k' => ((m.lookup k').map w).getD 0 := by
      refine List.map_congr_left fun k' hk' => ?_
      rw [AList.lookup_erase_ne (ne_of_mem_of_not_mem hk' hk)]
    rw [List.map_cons, List.sum_cons, ← herased, ← ih hkeys hothers]
    cases hv : m.lookup k with
    | none => rw [total_erase_of_none w hv, Option.map_none, Option.getD_none, Nat.zero_add]
    | some v => rw [total_erase_of_some w hv, Option.map_some, Option.getD_some]

/-- Updating one entry exchanges its old weight for its new one. -/
theorem total_modify {m : Map K V} {k : K} {v : V} (h : m.lookup k = some v) (f : V → V) :
    total w (modify k f m) + w v = total w m + w (f v) := by
  rw [modify_of_some h, total_insert, total_erase_of_some w h]
  omega

end Total

/-- A saturating `u64` sum is the clamped exact sum, in whatever order it is
taken: saturation is never undone by adding more. -/
theorem foldl_saturatingAdd (w : V → UInt64) (vs : List V) (acc : UInt64) :
    (vs.foldl (fun acc v => FixedWidth.saturatingAdd acc (w v)) acc).toNat =
      min (acc.toNat + (vs.map fun v => (w v).toNat).sum) (2 ^ 64 - 1) := by
  induction vs generalizing acc with
  | nil =>
    have := acc.toNat_lt
    simp only [List.foldl_nil, List.map_nil, List.sum_nil]
    omega
  | cons v vs ih =>
    simp only [List.foldl_cons, List.map_cons, List.sum_cons]
    rw [ih, FixedWidth.toNat_saturatingAdd]
    omega

end HashMap
