import Mathlib.Algebra.Order.Group.Nat
import Mathlib.Data.List.Basic

/-!
# Memory as bytes

Writes and reads of byte strings, and writes of several at disjoint places.
-/

namespace ByteMemory

set_option autoImplicit false

def Memory : Type := Nat → UInt8

def Memory.write (m : Memory) (address : Nat) (bytes : List UInt8) : Memory := fun a =>
  if address ≤ a then bytes.getD (a - address) (m a) else m a

def Memory.read (m : Memory) (address size : Nat) : List UInt8 :=
  (List.range size).map fun k => m (address + k)

/-- Byte strings at their addresses, written in order. -/
def Memory.writeAll (m : Memory) (parts : List (Nat × List UInt8)) : Memory :=
  parts.foldl (fun m part => m.write part.1 part.2) m

/-- The ranges of two byte strings have no byte in common. -/
def Apart (a b : Nat × List UInt8) : Prop :=
  a.1 + a.2.length ≤ b.1 ∨ b.1 + b.2.length ≤ a.1

variable {m m' : Memory} {address other size : Nat} {bytes : List UInt8}
  {parts : List (Nat × List UInt8)} {part : Nat × List UInt8}

theorem Apart.symm {a b : Nat × List UInt8} (h : Apart a b) : Apart b a := Or.symm h

/-- A read depends on the bytes of its range alone. -/
theorem read_congr (h : ∀ k, k < size → m (address + k) = m' (address + k)) :
    m.read address size = m'.read address size := by
  apply List.map_congr_left
  intro k hk
  exact h k (List.mem_range.mp hk)

theorem write_apply_of_outside {a : Nat} (h : a < address ∨ address + bytes.length ≤ a) :
    m.write address bytes a = m a := by
  unfold Memory.write
  split
  · rw [List.getD_eq_getElem?_getD, List.getElem?_eq_none (by omega), Option.getD_none]
  · rfl

theorem read_write_self : (m.write address bytes).read address bytes.length = bytes := by
  apply List.ext_getElem
  · rw [Memory.read, List.length_map, List.length_range]
  · intro k _ hk
    simp [Memory.read, Memory.write, hk]

theorem read_write_of_apart (h : Apart (address, bytes) part) :
    (m.write address bytes).read part.1 part.2.length = m.read part.1 part.2.length := by
  apply read_congr
  intro k hk
  apply write_apply_of_outside
  unfold Apart at h
  dsimp only at h
  omega

theorem read_writeAll_of_apart (h : ∀ a ∈ parts, Apart a part) :
    (m.writeAll parts).read part.1 part.2.length = m.read part.1 part.2.length := by
  induction parts generalizing m with
  | nil => rfl
  | cons first rest ih =>
    obtain ⟨hfirst, hrest⟩ := List.forall_mem_cons.mp h
    exact (ih hrest).trans (read_write_of_apart hfirst)

/-- Strings written at disjoint places are all read back. -/
theorem read_writeAll (h : parts.Pairwise Apart) (hpart : part ∈ parts) :
    (m.writeAll parts).read part.1 part.2.length = part.2 := by
  induction parts generalizing m with
  | nil => cases hpart
  | cons first rest ih =>
    obtain ⟨hfirst, hrest⟩ := List.pairwise_cons.mp h
    rcases List.mem_cons.mp hpart with rfl | hmem
    · have hkept : ((m.write part.1 part.2).writeAll rest).read part.1 part.2.length =
          (m.write part.1 part.2).read part.1 part.2.length :=
        read_writeAll_of_apart fun a ha => (hfirst a ha).symm
      exact hkept.trans read_write_self
    · exact ih hrest hmem

end ByteMemory
