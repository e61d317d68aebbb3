import Mathlib.Data.List.DropRight

/-!
# Padded fixed-width fields

A list written into a field of `n` places and filled up with one padding value.
The field has no length of its own, so a reader takes the list to end at the first
padding value. What is read back, and which lists share a field, is settled here
for any value type.
-/

namespace ZeroPadding

set_option autoImplicit false

variable {α : Type} [DecidableEq α] {n : Nat} {z : α}

def pad (n : Nat) (z : α) (l : List α) : Vector α n := Vector.ofFn fun i => l.getD i z

/-- Everything before the first padding value. -/
def content (z : α) (v : Vector α n) : List α := v.toList.takeWhile (· ≠ z)

/-- Nothing but padding after the first padding value. -/
def Padded (z : α) (v : Vector α n) : Prop := ∀ a ∈ v.toList.dropWhile (· ≠ z), a = z

instance (v : Vector α n) : Decidable (Padded z v) :=
  inferInstanceAs (Decidable (∀ a ∈ v.toList.dropWhile (· ≠ z), a = z))

section Lists

theorem takeWhile_ne_eq_self_iff (l : List α) : l.takeWhile (· ≠ z) = l ↔ z ∉ l := by
  rw [List.takeWhile_eq_self_iff]
  constructor
  · intro h hz
    simpa using h z hz
  · intro h a ha
    have hne : a ≠ z := fun he => h (he ▸ ha)
    simpa using hne

/-- A search for the first padding value finds the end of what stands before it. -/
theorem take_findIdx_eq_takeWhile (l : List α) :
    l.take ((l.findIdx? (· = z)).getD l.length) = l.takeWhile (· ≠ z) := by
  induction l with
  | nil => rfl
  | cons a l ih =>
    rw [List.findIdx?_cons]
    by_cases ha : a = z
    · simp [ha]
    · have hstop : ((l.findIdx? (· = z)).map (· + 1)).getD (a :: l).length =
          (l.findIdx? (· = z)).getD l.length + 1 := by
        cases l.findIdx? (· = z) <;> rfl
      rw [if_neg (by simpa using ha), hstop, List.take_succ_cons, ih,
        List.takeWhile_cons_of_pos (by simpa using ha)]

theorem takeWhile_ne_append_replicate (l : List α) (k : Nat) :
    (l ++ List.replicate k z).takeWhile (· ≠ z) = l.takeWhile (· ≠ z) := by
  induction l with
  | nil => cases k <;> simp [List.replicate_succ]
  | cons a l ih =>
    by_cases ha : a = z
    · simp [ha]
    · simpa [ha] using ih

/-- Two lists filled up to one length agree iff they differ in trailing padding only. -/
theorem append_replicate_inj {l l' : List α} (hl : l.length ≤ n) (hl' : l'.length ≤ n) :
    l ++ List.replicate (n - l.length) z = l' ++ List.replicate (n - l'.length) z ↔
      l.rdropWhile (· = z) = l'.rdropWhile (· = z) := by
  have hdrop : ∀ (l : List α) (k : Nat),
      (l ++ List.replicate k z).rdropWhile (· = z) = l.rdropWhile (· = z) := by
    intro l k
    induction k with
    | zero => simp
    | succ k ih =>
      rw [List.replicate_succ', ← List.append_assoc, List.rdropWhile_concat_pos _ _ _ (by simp), ih]
  have hrefill : ∀ l : List α, l.length ≤ n →
      l ++ List.replicate (n - l.length) z =
        l.rdropWhile (· = z) ++ List.replicate (n - (l.rdropWhile (· = z)).length) z := by
    intro l hl
    have hparts := List.rdropWhile_append_rtakeWhile (p := (· = z)) (l := l)
    have htail : l.rtakeWhile (· = z) = List.replicate (l.rtakeWhile (· = z)).length z := by
      apply List.eq_replicate_iff.mpr
      refine ⟨rfl, ?_⟩
      intro a ha
      simpa using List.mem_rtakeWhile_imp ha
    have hlength : (l.rdropWhile (· = z)).length + (l.rtakeWhile (· = z)).length = l.length := by
      rw [← List.length_append, hparts]
    calc l ++ List.replicate (n - l.length) z
        = l.rdropWhile (· = z) ++ (List.replicate (l.rtakeWhile (· = z)).length z
            ++ List.replicate (n - l.length) z) := by
          rw [← List.append_assoc, ← htail, hparts]
      _ = _ := by
          rw [List.replicate_append_replicate]
          congr 2
          omega
  constructor
  · intro h
    rw [← hdrop l (n - l.length), h, hdrop]
  · intro h
    rw [hrefill l hl, hrefill l' hl', h]

end Lists

section Fields
variable {l l' : List α} {v : Vector α n}

omit [DecidableEq α] in
theorem toList_pad (h : l.length ≤ n) :
    (pad n z l).toList = l ++ List.replicate (n - l.length) z := by
  apply List.ext_getElem
  · simp
    omega
  · intro i hi hi'
    simp only [pad, Vector.toList_ofFn, List.getElem_ofFn, List.getElem_append,
      List.getElem_replicate, List.getD_eq_getElem?_getD]
    split
    · rename_i hlt
      simp [hlt]
    · rename_i hge
      simp [List.getElem?_eq_none (Nat.le_of_not_lt hge)]

theorem content_pad (h : l.length ≤ n) : content z (pad n z l) = l.takeWhile (· ≠ z) := by
  rw [content, toList_pad h, takeWhile_ne_append_replicate]

theorem pad_inj_iff (hl : l.length ≤ n) (hl' : l'.length ≤ n) :
    pad n z l = pad n z l' ↔ l.rdropWhile (· = z) = l'.rdropWhile (· = z) := by
  rw [← Vector.toList_inj, toList_pad hl, toList_pad hl', append_replicate_inj hl hl']

theorem take_findIdx_eq_content (v : Vector α n) :
    v.toList.take ((v.toList.findIdx? (· = z)).getD n) = content z v := by
  have h := take_findIdx_eq_takeWhile (z := z) v.toList
  rwa [Vector.length_toList] at h

theorem length_content_le (v : Vector α n) : (content z v).length ≤ n := by
  have h := (List.takeWhile_prefix (· ≠ z) (l := v.toList)).length_le
  simpa [content] using h

/-- A padded field is what its content is written as. -/
theorem pad_content (h : Padded z v) : pad n z (content z v) = v := by
  have hparts : content z v ++ v.toList.dropWhile (· ≠ z) = v.toList :=
    List.takeWhile_append_dropWhile
  have htail : v.toList.dropWhile (· ≠ z) =
      List.replicate (v.toList.dropWhile (· ≠ z)).length z :=
    List.eq_replicate_iff.mpr ⟨rfl, h⟩
  have hlength : (content z v).length + (v.toList.dropWhile (· ≠ z)).length = n := by
    rw [← List.length_append, hparts, Vector.length_toList]
  apply Vector.toList_inj.mp
  rw [toList_pad (length_content_le v)]
  calc content z v ++ List.replicate (n - (content z v).length) z
      = content z v ++ List.replicate (v.toList.dropWhile (· ≠ z)).length z := by
        congr 2
        omega
    _ = v.toList := by rw [← htail, hparts]

end Fields

end ZeroPadding
