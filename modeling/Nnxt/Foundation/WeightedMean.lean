import Mathlib.Algebra.Order.Field.Basic
import Mathlib.Algebra.BigOperators.Group.List.Basic
import Mathlib.Tactic.FieldSimp
import Mathlib.Tactic.Ring
import Mathlib.Tactic.Linarith

/-!
# Weighted means

The mean of a list of weighted values, and the mixture of two values by which
it is computed one entry at a time.
-/

namespace WeightedMean

set_option autoImplicit false

universe u

variable {K : Type u} [Field K]

/-- The value `a` with weight `w` and the value `b` with weight `v`. -/
def mix (a w b v : K) : K := (a * w + b * v) / (w + v)

/-- The entries are pairs of a weight and a value. -/
def totalWeight (entries : List (K × K)) : K := (entries.map fun e => e.1).sum

def weightedMean (entries : List (K × K)) : K :=
  (entries.map fun e => e.1 * e.2).sum / totalWeight entries

section Field
variable {entries : List (K × K)} {a w b v : K}

@[simp] theorem totalWeight_singleton (w b : K) : totalWeight [(w, b)] = w := by
  simp [totalWeight]

@[simp] theorem totalWeight_append (entries : List (K × K)) (v b : K) :
    totalWeight (entries ++ [(v, b)]) = totalWeight entries + v := by
  simp [totalWeight]

theorem mix_zero (hv : v ≠ 0) : mix a 0 b v = b := by
  rw [mix, mul_zero, zero_add, zero_add, mul_div_cancel_right₀ b hv]

theorem weightedMean_singleton (hw : w ≠ 0) : weightedMean [(w, b)] = b := by
  rw [weightedMean, totalWeight_singleton, List.map_singleton, List.sum_singleton,
    mul_div_cancel_left₀ b hw]

/-- One more entry is mixed in with the weight of all the others. -/
theorem weightedMean_append (htotal : totalWeight entries ≠ 0) :
    weightedMean (entries ++ [(v, b)]) =
      mix (weightedMean entries) (totalWeight entries) b v := by
  rw [weightedMean, mix, weightedMean, div_mul_cancel₀ _ htotal, totalWeight_append,
    List.map_append, List.sum_append, List.map_singleton, List.sum_singleton, mul_comm v b]

end Field

section Order
variable [LinearOrder K] [IsStrictOrderedRing K] {a w b v c : K}

theorem mix_le (hw : 0 < w) (hv : 0 < v) (ha : a ≤ c) (hb : b ≤ c) : mix a w b v ≤ c := by
  rw [mix, div_le_iff₀ (add_pos hw hv), mul_add]
  exact add_le_add (mul_le_mul_of_nonneg_right ha hw.le) (mul_le_mul_of_nonneg_right hb hv.le)

theorem le_mix (hw : 0 < w) (hv : 0 < v) (ha : c ≤ a) (hb : c ≤ b) : c ≤ mix a w b v := by
  rw [mix, le_div_iff₀ (add_pos hw hv), mul_add]
  exact add_le_add (mul_le_mul_of_nonneg_right ha hw.le) (mul_le_mul_of_nonneg_right hb hv.le)

end Order

end WeightedMean
