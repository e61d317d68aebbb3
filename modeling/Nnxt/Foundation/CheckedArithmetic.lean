import Nnxt.Foundation.FixedWidth

/-!
# Checked integer operations

An operation without overflow, apart from the operator that wraps: the exact
integer as an `i64`, if it is one. Where it is, the wrapping operator agrees.
-/

namespace FixedWidth

set_option autoImplicit false

/-- An integer as an `i64`, if it is one. -/
def checkedI64 (x : Int) : Option Int64 := if FitsI64 x then some (Int64.ofInt x) else none

/-- `i64::try_from` of a `u64`: the cast, if it keeps the value. -/
def checkedCast (a : UInt64) : Option Int64 := checkedI64 a.toNat

/-- `i64::checked_add`. -/
def checkedAdd (a b : Int64) : Option Int64 := checkedI64 (a.toInt + b.toInt)

/-- `i64::checked_sub`. -/
def checkedSub (a b : Int64) : Option Int64 := checkedI64 (a.toInt - b.toInt)

/-- `i64::checked_neg`. -/
def checkedNeg (a : Int64) : Option Int64 := checkedI64 (-a.toInt)

/-- A natural number as a `u64`, if it is one. -/
def checkedU64 (n : Nat) : Option UInt64 := if n < 2 ^ 64 then some (UInt64.ofNat n) else none

/-- `u64::checked_add`. -/
def checkedAddU64 (a b : UInt64) : Option UInt64 := checkedU64 (a.toNat + b.toNat)

/-- `u64::checked_mul`. -/
def checkedMulU64 (a b : UInt64) : Option UInt64 := checkedU64 (a.toNat * b.toNat)

/-- `u64::checked_sub`. -/
def checkedSubU64 (a b : UInt64) : Option UInt64 := if b ≤ a then some (a - b) else none

theorem checkedU64_eq_some_iff {n : Nat} {q : UInt64} : checkedU64 n = some q ↔ q.toNat = n := by
  unfold checkedU64
  constructor
  · intro h
    split at h
    · rename_i hfits
      rw [← Option.some.inj h, UInt64.toNat_ofNat']
      exact Nat.mod_eq_of_lt hfits
    · cases h
  · rintro rfl
    rw [if_pos q.toNat_lt, UInt64.ofNat_toNat]

theorem checkedSubU64_eq_some_iff {a b q : UInt64} :
    checkedSubU64 a b = some q ↔ b ≤ a ∧ q = a - b := by
  unfold checkedSubU64
  split
  · rename_i hle
    rw [Option.some.injEq, and_iff_right hle, eq_comm]
  · rename_i hle
    exact iff_of_false (Option.some_ne_none _).symm fun h => hle h.1

variable {a b c : Int64} {x : Int}

theorem fits_toInt (a : Int64) : FitsI64 a.toInt := ⟨a.le_toInt, a.toInt_lt⟩

theorem toInt_ofInt_of_fits (h : FitsI64 x) : (Int64.ofInt x).toInt = x := by
  rw [Int64.toInt_ofInt]
  exact bmod_of_fits h

theorem checkedI64_eq_some_iff : checkedI64 x = some c ↔ c.toInt = x := by
  unfold checkedI64
  constructor
  · intro h
    split at h
    · rename_i hfits
      rw [← Option.some.inj h]
      exact toInt_ofInt_of_fits hfits
    · cases h
  · rintro rfl
    rw [if_pos (fits_toInt c), Int64.ofInt_toInt]

theorem checkedCast_of_fits {q : UInt64} (h : FitsI64 q.toNat) : checkedCast q = some q.toInt64 :=
  checkedI64_eq_some_iff.mpr (toInt_toInt64_of_fits h)

theorem checkedAdd_of_fits (h : FitsI64 (a.toInt + b.toInt)) : checkedAdd a b = some (a + b) := by
  apply checkedI64_eq_some_iff.mpr
  rw [Int64.toInt_add]
  exact bmod_of_fits h

theorem checkedSub_of_fits (h : FitsI64 (a.toInt - b.toInt)) : checkedSub a b = some (a - b) := by
  apply checkedI64_eq_some_iff.mpr
  rw [Int64.toInt_sub]
  exact bmod_of_fits h

theorem checkedNeg_of_fits (h : FitsI64 (-a.toInt)) : checkedNeg a = some (-a) := by
  apply checkedI64_eq_some_iff.mpr
  rw [Int64.toInt_neg]
  exact bmod_of_fits h

end FixedWidth
