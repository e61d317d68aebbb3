import Mathlib.Data.List.DropRight
import Mathlib.Data.List.Nodup

/-!
# Deduplication by a bounded history

A value is accepted when it is not among the `n` values accepted last. The
abstract state is the whole history of accepted values; an implementation keeps
only its end.
-/

namespace RecentWindow

set_option autoImplicit false

universe u
variable {α : Type u} {n : Nat} {history : List α} {x : α}

theorem length_rtake : (history.rtake n).length = min n history.length := by
  rw [List.rtake, List.length_drop]
  omega

theorem rtake_of_length_le (h : history.length ≤ n) : history.rtake n = history := by
  rw [List.rtake, Nat.sub_eq_zero_of_le h, List.drop_zero]

theorem tail_rtake (h : n < history.length) : (history.rtake (n + 1)).tail = history.rtake n := by
  rw [List.rtake, List.rtake, List.tail_drop]
  congr 1
  omega

/-- The window after one more value: a full window gives up its oldest. -/
theorem rtake_append_singleton (hn : 0 < n) :
    (history ++ [x]).rtake n =
      if n < (history.rtake n ++ [x]).length then (history.rtake n ++ [x]).tail
      else history.rtake n ++ [x] := by
  obtain ⟨m, rfl⟩ := Nat.exists_eq_succ_of_ne_zero (Nat.ne_of_gt hn)
  rw [List.rtake_concat_succ, List.length_append, length_rtake, List.length_singleton]
  by_cases hfull : m < history.length
  · have hne : history.rtake (m + 1) ≠ [] := by
      intro hnil
      have hlen := congrArg List.length hnil
      rw [length_rtake, List.length_nil] at hlen
      omega
    rw [if_pos (by omega), List.tail_append_of_ne_nil hne, tail_rtake hfull]
  · rw [if_neg (by omega), rtake_of_length_le (by omega), rtake_of_length_le (by omega)]

section Offers
variable [DecidableEq α]

/-- The history after `x` has been offered. -/
def offer (n : Nat) (history : List α) (x : α) : List α :=
  if x ∈ history.rtake n then history else history ++ [x]

def offerAll (n : Nat) (history xs : List α) : List α := xs.foldl (offer n) history

theorem offer_of_recent (h : x ∈ history.rtake n) : offer n history x = history := if_pos h

theorem offer_of_new (h : x ∉ history.rtake n) : offer n history x = history ++ [x] := if_neg h

theorem offer_of_notMem (h : x ∉ history) : offer n history x = history ++ [x] :=
  offer_of_new fun hmem => h (List.mem_of_mem_drop hmem)

/-- Pairwise distinct values are all accepted, whatever the size of the window. -/
theorem offerAll_of_nodup {xs : List α} (h : (history ++ xs).Nodup) :
    offerAll n history xs = history ++ xs := by
  induction xs generalizing history with
  | nil => exact (List.append_nil history).symm
  | cons y ys ih =>
    have hy : y ∉ history := by
      intro hmem
      exact List.disjoint_of_nodup_append h hmem List.mem_cons_self
    have hstep : offerAll n history (y :: ys) = offerAll n (offer n history y) ys := rfl
    rw [List.append_cons] at h
    rw [hstep, offer_of_notMem hy, ih h]
    exact (List.append_cons history y ys).symm

end Offers

end RecentWindow
