import Mathlib.Algebra.Order.Group.Nat
import Mathlib.Data.Nat.Bitwise

/-!
# Rounding up and placed extents

Rounding to a multiple in the natural numbers, apart from any machine word, and
byte ranges that are placed one after the other.
-/

namespace Alignment

set_option autoImplicit false

def roundUp (value align : Nat) : Nat := (value + align - 1) / align * align

section Rounding
variable {value align : Nat}

theorem dvd_roundUp (value align : Nat) : align ∣ roundUp value align := Nat.dvd_mul_left _ _

theorem le_roundUp (h : 0 < align) : value ≤ roundUp value align := by
  have hmod := Nat.mod_lt (value + align - 1) h
  have hdiv := Nat.div_add_mod' (value + align - 1) align
  unfold roundUp
  omega

theorem roundUp_lt (h : 0 < align) : roundUp value align < value + align := by
  have hdiv := Nat.div_mul_le_self (value + align - 1) align
  unfold roundUp
  omega

/-- The multiples of `align` survive the reduction modulo one of them. -/
theorem mod_div_mul {m : Nat} (h : align ∣ m) (x : Nat) :
    x % m / align * align = x / align * align % m := by
  obtain ⟨c, rfl⟩ := h
  rw [Nat.mod_mul_right_div_self, Nat.mul_comm, Nat.mul_comm (x / align), Nat.mul_mod_mul_left]

/-- Clearing the low bits with a mask. -/
theorem and_not_mask {x n k : Nat} (hx : x < 2 ^ n) (hk : k ≤ n) :
    x &&& (2 ^ n - 1 - (2 ^ k - 1)) = x / 2 ^ k * 2 ^ k := by
  have hpow : 2 ^ k ≤ 2 ^ n := Nat.pow_le_pow_right (by omega) hk
  have hone : 0 < 2 ^ k := Nat.two_pow_pos k
  have hmask : 2 ^ n - 1 - (2 ^ k - 1) = 2 ^ n - (2 ^ k - 1 + 1) := by omega
  apply Nat.eq_of_testBit_eq
  intro i
  rw [Nat.testBit_and, hmask, Nat.testBit_two_pow_sub_succ (by omega), Nat.testBit_two_pow_sub_one,
    Nat.testBit_mul_two_pow, Nat.testBit_div_two_pow]
  by_cases hi : k ≤ i
  · rw [Nat.sub_add_cancel hi]
    by_cases hin : i < n
    · simp [hi, hin]
    · have hbit : x.testBit i = false :=
        Nat.testBit_lt_two_pow (hx.trans_le (Nat.pow_le_pow_right (by omega) (by omega)))
      simp [hbit]
  · have hlow : i < k := by omega
    simp [hi, hlow]

end Rounding

/-- A range of bytes. -/
structure Extent where
  offset : Nat
  size : Nat

def Extent.stop (e : Extent) : Nat := e.offset + e.size

def Before (a b : Extent) : Prop := a.stop ≤ b.offset

/-- `count` ranges of one size without a gap between them. -/
def slots (base size count : Nat) : List Extent :=
  (List.range count).map fun k => ⟨base + size * k, size⟩

section Slots
variable {base size count : Nat} {e : Extent}

theorem mem_slots_iff : e ∈ slots base size count ↔ ∃ k, k < count ∧ e = ⟨base + size * k, size⟩ := by
  constructor
  · intro he
    obtain ⟨k, hk, rfl⟩ := List.mem_map.mp he
    exact ⟨k, List.mem_range.mp hk, rfl⟩
  · rintro ⟨k, hk, rfl⟩
    exact List.mem_map.mpr ⟨k, List.mem_range.mpr hk, rfl⟩

theorem within_of_mem_slots (he : e ∈ slots base size count) :
    base ≤ e.offset ∧ e.stop ≤ base + size * count := by
  obtain ⟨k, hk, rfl⟩ := mem_slots_iff.mp he
  have hnext : size * (k + 1) ≤ size * count := Nat.mul_le_mul_left size hk
  rw [Nat.mul_succ] at hnext
  refine ⟨Nat.le_add_right _ _, ?_⟩
  unfold Extent.stop
  dsimp only
  omega

theorem pairwise_slots (base size count : Nat) : (slots base size count).Pairwise Before := by
  apply List.pairwise_map.mpr
  apply List.pairwise_lt_range.imp
  intro j k hjk
  have hnext : size * (j + 1) ≤ size * k := Nat.mul_le_mul_left size hjk
  rw [Nat.mul_succ] at hnext
  unfold Before Extent.stop
  dsimp only
  omega

theorem dvd_offset_of_mem_slots {align : Nat} (hbase : align ∣ base) (hsize : align ∣ size)
    (he : e ∈ slots base size count) : align ∣ e.offset := by
  obtain ⟨k, _, rfl⟩ := mem_slots_iff.mp he
  exact Nat.dvd_add hbase (Dvd.dvd.mul_right hsize k)

/-- Two groups of ranges with a boundary between them. -/
theorem pairwise_append_of_boundary {first second : List Extent} (boundary : Nat)
    (hfirst : first.Pairwise Before) (hsecond : second.Pairwise Before)
    (hstop : ∀ a ∈ first, a.stop ≤ boundary) (hoffset : ∀ b ∈ second, boundary ≤ b.offset) :
    (first ++ second).Pairwise Before :=
  List.pairwise_append.mpr
    ⟨hfirst, hsecond, fun a ha b hb => (hstop a ha).trans (hoffset b hb)⟩

end Slots

end Alignment
