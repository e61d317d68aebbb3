import Mathlib.Algebra.Order.Ring.Int
import Mathlib.Data.List.Nodup
import Mathlib.Data.List.Range

/-!
# Numbers drawn from a wrapping counter

A counter of 64 bits that is read and then raised by one. As long as it is read at
most 2^64 times, every number it has given out is a different one.
-/

namespace WrappingCounter

set_option autoImplicit false

/-- The `n` numbers given out from `first` on. -/
def drawn (first : UInt64) (n : Nat) : List UInt64 :=
  (List.range n).map fun k => first + UInt64.ofNat k

/-- `numbers` is what has been drawn, `next` what the counter holds now. -/
structure Draws (first : UInt64) (numbers : List UInt64) (next : UInt64) : Prop where
  eq_drawn : numbers = drawn first numbers.length
  next_eq : next = first + UInt64.ofNat numbers.length

section Draws
variable {first next : UInt64} {numbers : List UInt64}

theorem drawn_succ (first : UInt64) (n : Nat) :
    drawn first (n + 1) = drawn first n ++ [first + UInt64.ofNat n] := by
  rw [drawn, List.range_succ, List.map_append]
  rfl

theorem draws_nil (first : UInt64) : Draws first [] first where
  eq_drawn := rfl
  next_eq := (UInt64.add_zero first).symm

theorem Draws.draw (h : Draws first numbers next) : Draws first (numbers ++ [next]) (next + 1) where
  eq_drawn := by
    rw [List.length_append, List.length_singleton, drawn_succ, ← h.eq_drawn, ← h.next_eq]
  next_eq := by
    rw [List.length_append, List.length_singleton, h.next_eq, UInt64.add_assoc, UInt64.ofNat_add]
    rfl

theorem nodup_drawn (first : UInt64) {n : Nat} (h : n ≤ 2 ^ 64) : (drawn first n).Nodup := by
  refine (List.nodup_map_iff_inj_on List.nodup_range).mpr fun a ha b hb heq => ?_
  have hsame : UInt64.ofNat a = UInt64.ofNat b := (UInt64.add_right_inj first).mp heq
  have htoNat := congrArg UInt64.toNat hsame
  have ha' := List.mem_range.mp ha
  have hb' := List.mem_range.mp hb
  have hsize : UInt64.size = 2 ^ 64 := rfl
  rwa [UInt64.toNat_ofNat_of_lt' (by omega), UInt64.toNat_ofNat_of_lt' (by omega)] at htoNat

theorem Draws.nodup (h : Draws first numbers next) (hfew : numbers.length ≤ 2 ^ 64) :
    numbers.Nodup := by
  rw [h.eq_drawn]
  exact nodup_drawn first hfew

end Draws

end WrappingCounter
