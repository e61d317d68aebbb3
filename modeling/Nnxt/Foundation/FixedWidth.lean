import Mathlib.Algebra.Order.Ring.Int

/-!
# Fixed-width integer operations

The saturating and casting operations of 64-bit machine arithmetic that the
core library does not name, each with its meaning in the unbounded integers.
The plain operators on `UInt64` and `Int64` wrap.
-/

namespace FixedWidth

set_option autoImplicit false

/-- `u64::saturating_add`. -/
def saturatingAdd (a b : UInt64) : UInt64 := UInt64.ofNatClamp (a.toNat + b.toNat)

/-- `u64::saturating_sub`. -/
def saturatingSub (a b : UInt64) : UInt64 := UInt64.ofNat (a.toNat - b.toNat)

/-- `i64::saturating_add`. -/
def saturatingAddI64 (a b : Int64) : Int64 := Int64.ofIntClamp (a.toInt + b.toInt)

/-- `i64::saturating_sub`. -/
def saturatingSubI64 (a b : Int64) : Int64 := Int64.ofIntClamp (a.toInt - b.toInt)

/-- `i64::unsigned_abs`. -/
def unsignedAbs (a : Int64) : UInt64 := UInt64.ofNat a.toInt.natAbs

def FitsI64 (x : Int) : Prop := -2 ^ 63 ≤ x ∧ x < 2 ^ 63

instance (x : Int) : Decidable (FitsI64 x) := inferInstanceAs (Decidable (_ ∧ _))

@[simp] theorem toNat_ofNatClamp (n : Nat) :
    (UInt64.ofNatClamp n).toNat = min n (2 ^ 64 - 1) := by
  by_cases hn : n < UInt64.size
  · rw [UInt64.toNat_ofNatClamp_of_lt hn]
    simp only [UInt64.size] at hn
    omega
  · rw [UInt64.toNat_ofNatClamp_of_le (Nat.le_of_not_lt hn)]
    simp only [UInt64.size] at hn ⊢
    omega

@[simp] theorem toNat_saturatingAdd (a b : UInt64) :
    (saturatingAdd a b).toNat = min (a.toNat + b.toNat) (2 ^ 64 - 1) :=
  toNat_ofNatClamp _

@[simp] theorem saturatingAdd_zero (a : UInt64) : saturatingAdd a 0 = a := by
  apply UInt64.toNat_inj.mp
  have hlt := a.toNat_lt
  rw [toNat_saturatingAdd, UInt64.toNat_zero]
  omega

@[simp] theorem zero_saturatingAdd (a : UInt64) : saturatingAdd 0 a = a := by
  apply UInt64.toNat_inj.mp
  have hlt := a.toNat_lt
  rw [toNat_saturatingAdd, UInt64.toNat_zero]
  omega

@[simp] theorem toNat_saturatingSub (a b : UInt64) :
    (saturatingSub a b).toNat = a.toNat - b.toNat := by
  have ha := a.toNat_lt
  rw [saturatingSub, UInt64.toNat_ofNat']
  exact Nat.mod_eq_of_lt (by omega)

theorem toInt_ofIntClamp_of_fits {x : Int} (h : FitsI64 x) : (Int64.ofIntClamp x).toInt = x := by
  apply Int64.toInt_ofIntClamp
  · rw [Int64.toInt_minValue]
    exact h.1
  · have hmax : Int64.maxValue.toInt = 2 ^ 63 - 1 := rfl
    have := h.2
    omega

/-- The clamp in the unbounded integers. -/
theorem toInt_ofIntClamp (x : Int) :
    (Int64.ofIntClamp x).toInt = max (-2 ^ 63) (min (2 ^ 63 - 1) x) := by
  by_cases hfits : FitsI64 x
  · rw [toInt_ofIntClamp_of_fits hfits, min_eq_right (by have := hfits.2; omega),
      max_eq_right hfits.1]
  · unfold Int64.ofIntClamp
    have hmin : Int64.minValue.toInt = -2 ^ 63 := Int64.toInt_minValue
    have hmax : Int64.maxValue.toInt = 2 ^ 63 - 1 := rfl
    unfold FitsI64 at hfits
    split
    · split
      · omega
      · omega
    · omega

theorem ofIntClamp_eq_zero_iff {x : Int} : Int64.ofIntClamp x = 0 ↔ x = 0 := by
  constructor
  · intro h
    have hzero : (Int64.ofIntClamp x).toInt = 0 := by rw [h, Int64.toInt_zero]
    unfold Int64.ofIntClamp at hzero
    split at hzero
    · split at hzero
      · rwa [Int64.toInt_ofIntLE] at hzero
      · exact absurd hzero (by decide)
    · exact absurd hzero (by decide)
  · intro h
    rw [h]
    rfl

/-- Saturation never makes a difference vanish. -/
theorem saturatingSubI64_eq_zero_iff {a b : Int64} : saturatingSubI64 a b = 0 ↔ b = a := by
  rw [saturatingSubI64, ofIntClamp_eq_zero_iff, ← Int64.toInt_inj]
  omega

theorem toInt_saturatingAddI64 {a b : Int64} (h : FitsI64 (a.toInt + b.toInt)) :
    (saturatingAddI64 a b).toInt = a.toInt + b.toInt := toInt_ofIntClamp_of_fits h

@[simp] theorem toNat_unsignedAbs (a : Int64) : (unsignedAbs a).toNat = a.toInt.natAbs := by
  have h1 := a.le_toInt
  have h2 := a.toInt_lt
  rw [unsignedAbs, UInt64.toNat_ofNat']
  exact Nat.mod_eq_of_lt (by omega)

theorem toInt_toInt64 (a : UInt64) : a.toInt64.toInt = (a.toNat : Int).bmod (2 ^ 64) := by
  rw [UInt64.toInt64, Int64.toInt, Int64.toBitVec, BitVec.toInt_eq_toNat_bmod]
  rfl

theorem bmod_of_fits {x : Int} (h : FitsI64 x) : x.bmod (2 ^ 64) = x := by
  have h1 := h.1
  have h2 := h.2
  apply Int.bmod_eq_of_le <;> omega

theorem toInt_toInt64_of_fits {a : UInt64} (h : FitsI64 (a.toNat : Int)) :
    a.toInt64.toInt = a.toNat := by
  rw [toInt_toInt64, bmod_of_fits h]

theorem unsignedAbs_toInt64_of_pos {a : Int64} (h : 0 < a) : (unsignedAbs a).toInt64 = a := by
  have hpos : 0 < a.toInt := Int64.lt_iff_toInt_lt.mp h
  have hlt := a.toInt_lt
  apply Int64.toInt_inj.mp
  rw [toInt_toInt64_of_fits] <;> rw [toNat_unsignedAbs]
  · omega
  · exact ⟨by omega, by omega⟩

/-- The least `i64` included: its magnitude and its negation have the same bits. -/
theorem unsignedAbs_toInt64_of_not_pos {a : Int64} (h : ¬ 0 < a) :
    (unsignedAbs a).toInt64 = -a := by
  have hneg : ¬ 0 < a.toInt := fun hpos => h (Int64.lt_iff_toInt_lt.mpr hpos)
  have habs : (a.toInt.natAbs : Int) = -a.toInt := by omega
  apply Int64.toInt_inj.mp
  rw [toInt_toInt64, toNat_unsignedAbs, habs, Int64.toInt_neg]

end FixedWidth
