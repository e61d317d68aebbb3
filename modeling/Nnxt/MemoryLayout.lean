import Nnxt.Ring
import Nnxt.Foundation.Alignment
import Nnxt.Foundation.CheckedArithmetic

/-!
# The layout of a queue segment

The header, the reader slots and the data slots of one mapping, with the
arithmetic of `layout_for` as the machine does it: two multiplications and one
addition are checked, the other operators wrap.
-/

namespace Nnxt.MemoryLayout

set_option autoImplicit false

open FixedWidth Alignment

/-- What the layout depends on of a message type. Every type has a power of two as
its alignment and a multiple of it as its size. -/
structure ElementLayout where
  size : UInt64
  align : UInt64
  align_pow : ∃ k, align.toNat = 2 ^ k
  align_dvd : align.toNat ∣ size.toNat

/-- The alignment of a machine word is a power of two. -/
theorem word_align_pow : ∃ k, (8 : UInt64).toNat = 2 ^ k := ⟨3, rfl⟩

def magic : UInt64 := 0x5250444D51554555

def version : UInt32 := 1

structure Header where
  magic : UInt64
  version : UInt32
  capacity : UInt64
  elementSize : UInt64
  maxReaders : UInt64
  writeSeq : UInt64
  deriving DecidableEq, Repr

def Header.new (capacity elementSize maxReaders : UInt64) : Header :=
  { magic := MemoryLayout.magic
    version := MemoryLayout.version
    capacity := capacity
    elementSize := elementSize
    maxReaders := maxReaders
    writeSeq := 0 }

/-- `size_of::<Header>()`: 48 bytes of fields, aligned to 64. -/
def headerSize : UInt64 := 64

/-- The size and the alignment of `AtomicU64`. -/
def atomicSize : UInt64 := 8

structure Layout where
  readersOffset : UInt64
  dataOffset : UInt64
  totalSize : UInt64
  deriving DecidableEq, Repr

def alignUp (value align : UInt64) : UInt64 := (value + align - 1) &&& ~~~(align - 1)

def layoutFor (T : ElementLayout) (capacity maxReaders : UInt64) : Except RingError Layout :=
  if capacity = 0 then .error .capacityTooSmall
  else
    let readersOffset := alignUp headerSize atomicSize
    match checkedMulU64 atomicSize maxReaders with
    | none => .error .capacityTooSmall
    | some readersSize =>
      let dataOffset := alignUp (readersOffset + readersSize) T.align
      match checkedMulU64 T.size capacity with
      | none => .error .capacityTooSmall
      | some dataSize =>
        match checkedAddU64 dataOffset dataSize with
        | none => .error .capacityTooSmall
        | some totalSize => .ok ⟨readersOffset, dataOffset, totalSize⟩

inductive ConnectError where
  | invalidHeader
  | sizeMismatch (expected actual : UInt64)
  | ring (error : RingError)
  deriving DecidableEq, Repr

/-- The checks of `Reader::connect` on a mapping of `mapLen` bytes. -/
def connectLayout (T : ElementLayout) (header : Header) (mapLen : UInt64) :
    Except ConnectError Layout :=
  if header.magic ≠ magic ∨ header.version ≠ version then .error .invalidHeader
  else if header.elementSize ≠ T.size then .error (.sizeMismatch T.size header.elementSize)
  else
    match layoutFor T header.capacity header.maxReaders with
    | .error error => .error (.ring error)
    | .ok layout =>
      if mapLen < layout.totalSize then .error (.sizeMismatch layout.totalSize mapLen)
      else .ok layout

/-- `align_up` where an operator that overflows gives no result. -/
def checkedAlignUp (value align : UInt64) : Option UInt64 := do
  let sum ← checkedAddU64 value align
  let top ← checkedSubU64 sum 1
  let mask ← checkedSubU64 align 1
  some (top &&& ~~~mask)

/-- The offsets of `layout_for` where every operator is checked. -/
def checkedLayout (T : ElementLayout) (capacity maxReaders : UInt64) : Option Layout := do
  let readersOffset ← checkedAlignUp headerSize atomicSize
  let readersSize ← checkedMulU64 atomicSize maxReaders
  let readersEnd ← checkedAddU64 readersOffset readersSize
  let dataOffset ← checkedAlignUp readersEnd T.align
  let dataSize ← checkedMulU64 T.size capacity
  let totalSize ← checkedAddU64 dataOffset dataSize
  some ⟨readersOffset, dataOffset, totalSize⟩

/-- The reader slots the ring code addresses, as offsets into the mapping. -/
def readerSlots (layout : Layout) (maxReaders : UInt64) : List Extent :=
  slots layout.readersOffset.toNat atomicSize.toNat maxReaders.toNat

def dataSlots (T : ElementLayout) (layout : Layout) (capacity : UInt64) : List Extent :=
  slots layout.dataOffset.toNat T.size.toNat capacity.toNat

def regions (T : ElementLayout) (capacity maxReaders : UInt64) (layout : Layout) : List Extent :=
  ⟨0, headerSize.toNat⟩ :: (readerSlots layout maxReaders ++ dataSlots T layout capacity)

section AlignUp
variable {value align q : UInt64} {k : Nat}

theorem align_pos (T : ElementLayout) : 0 < T.align.toNat := by
  obtain ⟨k, hk⟩ := T.align_pow
  rw [hk]
  exact Nat.two_pow_pos k

/-- The mask clears the low bits. -/
theorem toNat_and_mask (halign : align.toNat = 2 ^ k) :
    (value &&& ~~~(align - 1)).toNat = value.toNat / align.toNat * align.toNat := by
  have hpos : 0 < align.toNat := halign ▸ Nat.two_pow_pos k
  have hlt := align.toNat_lt
  have hk : k < 64 := by
    rw [halign] at hlt
    exact (Nat.pow_lt_pow_iff_right (by omega)).mp hlt
  have hone : (1 : UInt64) ≤ align := UInt64.le_iff_toNat_le.mpr hpos
  have hmask : (~~~(align - 1)).toNat = 2 ^ 64 - 1 - (2 ^ k - 1) := by
    rw [UInt64.toNat_not, UInt64.toNat_sub_of_le _ _ hone, halign]
    rfl
  rw [UInt64.toNat_and, hmask, halign]
  exact and_not_mask value.toNat_lt (by omega)

/-- `align_up` is rounding up, modulo the word. -/
theorem toNat_alignUp (halign : align.toNat = 2 ^ k) :
    (alignUp value align).toNat = roundUp value.toNat align.toNat % 2 ^ 64 := by
  have hpos : 0 < align.toNat := halign ▸ Nat.two_pow_pos k
  have hlt := align.toNat_lt
  have hdvd : align.toNat ∣ 2 ^ 64 := by
    rw [halign] at hlt ⊢
    exact Nat.pow_dvd_pow 2 (Nat.le_of_lt ((Nat.pow_lt_pow_iff_right (by omega)).mp hlt))
  have htop : (value + align - 1).toNat = (value.toNat + align.toNat - 1) % 2 ^ 64 := by
    rw [UInt64.toNat_sub, UInt64.toNat_add, UInt64.toNat_one]
    omega
  rw [alignUp, toNat_and_mask halign, htop, mod_div_mul hdvd]
  rfl

theorem checkedAlignUp_eq_some_iff (halign : align.toNat = 2 ^ k) :
    checkedAlignUp value align = some q ↔
      value.toNat + align.toNat < 2 ^ 64 ∧ q.toNat = roundUp value.toNat align.toNat := by
  have hpos : 0 < align.toNat := halign ▸ Nat.two_pow_pos k
  have hone : (1 : UInt64) ≤ align := UInt64.le_iff_toNat_le.mpr hpos
  simp only [checkedAlignUp, Option.bind_eq_bind, Option.bind_eq_some_iff, checkedAddU64,
    checkedU64_eq_some_iff, checkedSubU64_eq_some_iff, Option.some.injEq]
  constructor
  · rintro ⟨sum, hsum, top, ⟨hle, rfl⟩, mask, ⟨_, rfl⟩, rfl⟩
    refine ⟨hsum ▸ sum.toNat_lt, ?_⟩
    rw [toNat_and_mask halign, UInt64.toNat_sub_of_le _ _ hle, hsum]
    rfl
  · rintro ⟨hfits, hq⟩
    have hsum : (value + align).toNat = value.toNat + align.toNat := by
      rw [UInt64.toNat_add, Nat.mod_eq_of_lt hfits]
    have hle : (1 : UInt64) ≤ value + align := by
      rw [UInt64.le_iff_toNat_le, hsum, UInt64.toNat_one]
      omega
    refine ⟨value + align, hsum, value + align - 1, ⟨hle, rfl⟩, align - 1, ⟨hone, rfl⟩, ?_⟩
    apply UInt64.toNat_inj.mp
    rw [hq, toNat_and_mask halign, UInt64.toNat_sub_of_le _ _ hle, hsum]
    rfl

end AlignUp

section Layouts
variable {T : ElementLayout} {capacity maxReaders : UInt64} {layout : Layout}

theorem readersOffset_eq : alignUp headerSize atomicSize = 64 := by
  decide

/-- The successful path of `layout_for`. -/
theorem layoutFor_eq_ok_iff_steps :
    layoutFor T capacity maxReaders = .ok layout ↔
      capacity ≠ 0 ∧ ∃ readersSize, checkedMulU64 atomicSize maxReaders = some readersSize ∧
        ∃ dataSize, checkedMulU64 T.size capacity = some dataSize ∧
          layout.readersOffset = 64 ∧ layout.dataOffset = alignUp (64 + readersSize) T.align ∧
          checkedAddU64 layout.dataOffset dataSize = some layout.totalSize := by
  unfold layoutFor
  rw [readersOffset_eq]
  by_cases hcapacity : capacity = 0
  · simp [hcapacity]
  · rw [if_neg hcapacity, and_iff_right hcapacity]
    cases checkedMulU64 atomicSize maxReaders with
    | none => simp
    | some readersSize =>
      cases checkedMulU64 T.size capacity with
      | none => simp
      | some dataSize =>
        simp only [Option.some.injEq, exists_eq_left']
        constructor
        · intro h
          cases htotal : checkedAddU64 (alignUp (64 + readersSize) T.align) dataSize with
          | none =>
            rw [htotal] at h
            cases h
          | some totalSize =>
            rw [htotal] at h
            cases h
            exact ⟨rfl, rfl, htotal⟩
        · rintro ⟨hreaders, hdata, htotal⟩
          rw [← hdata, htotal, ← hreaders]

/-- The offsets of `layout_for` in natural numbers. -/
theorem layoutFor_eq_ok_iff :
    layoutFor T capacity maxReaders = .ok layout ↔
      capacity ≠ 0 ∧ 8 * maxReaders.toNat < 2 ^ 64 ∧ T.size.toNat * capacity.toNat < 2 ^ 64 ∧
      layout.readersOffset = 64 ∧
      layout.dataOffset.toNat =
        roundUp ((64 + 8 * maxReaders.toNat) % 2 ^ 64) T.align.toNat % 2 ^ 64 ∧
      layout.totalSize.toNat = layout.dataOffset.toNat + T.size.toNat * capacity.toNat := by
  obtain ⟨k, hk⟩ := T.align_pow
  have hoffset : ∀ readersSize : UInt64, readersSize.toNat = 8 * maxReaders.toNat →
      (layout.dataOffset = alignUp (64 + readersSize) T.align ↔ layout.dataOffset.toNat =
        roundUp ((64 + 8 * maxReaders.toNat) % 2 ^ 64) T.align.toNat % 2 ^ 64) := by
    intro readersSize hreaders
    rw [← UInt64.toNat_inj, toNat_alignUp hk, UInt64.toNat_add, hreaders]
    rfl
  simp only [layoutFor_eq_ok_iff_steps, checkedMulU64, checkedAddU64, checkedU64_eq_some_iff]
  constructor
  · rintro ⟨hcapacity, readersSize, hreaders, dataSize, hdata, hfirst, hsecond, htotal⟩
    refine ⟨hcapacity, hreaders ▸ readersSize.toNat_lt, hdata ▸ dataSize.toNat_lt, hfirst,
      (hoffset readersSize hreaders).mp hsecond, ?_⟩
    rw [htotal, hdata]
  · rintro ⟨hcapacity, hreaders, hdata, hfirst, hsecond, htotal⟩
    have hreadersNat := UInt64.toNat_ofNat_of_lt' hreaders
    have hdataNat := UInt64.toNat_ofNat_of_lt' hdata
    refine ⟨hcapacity, _, hreadersNat, _, hdataNat, hfirst, (hoffset _ hreadersNat).mpr hsecond, ?_⟩
    rw [htotal, hdataNat]

theorem checkedLayout_eq_some_iff :
    checkedLayout T capacity maxReaders = some layout ↔
      64 + 8 * maxReaders.toNat + T.align.toNat < 2 ^ 64 ∧
      T.size.toNat * capacity.toNat < 2 ^ 64 ∧
      layout.readersOffset = 64 ∧
      layout.dataOffset.toNat = roundUp (64 + 8 * maxReaders.toNat) T.align.toNat ∧
      layout.totalSize.toNat = layout.dataOffset.toNat + T.size.toNat * capacity.toNat := by
  obtain ⟨k, hk⟩ := T.align_pow
  have hfirst : checkedAlignUp headerSize atomicSize = some 64 := by
    decide
  simp only [checkedLayout, hfirst, Option.bind_eq_bind, Option.bind_some, Option.bind_eq_some_iff,
    checkedMulU64, checkedAddU64, checkedU64_eq_some_iff, checkedAlignUp_eq_some_iff hk,
    Option.some.injEq]
  constructor
  · rintro ⟨readersSize, hreaders, readersEnd, hend, dataOffset, ⟨hfits, hoffset⟩, dataSize, hdata,
      totalSize, htotal, rfl⟩
    have hendNat : readersEnd.toNat = 64 + 8 * maxReaders.toNat := by
      rw [hend, hreaders]
      rfl
    rw [hendNat] at hfits hoffset
    refine ⟨hfits, hdata ▸ dataSize.toNat_lt, rfl, hoffset, ?_⟩
    rw [htotal, hdata]
  · rintro ⟨hfits, hdata, hreadersOffset, hoffset, htotal⟩
    have hreaders : 8 * maxReaders.toNat < 2 ^ 64 := by omega
    have hend : 64 + 8 * maxReaders.toNat < 2 ^ 64 := by omega
    have hreadersNat := UInt64.toNat_ofNat_of_lt' hreaders
    have hendNat := UInt64.toNat_ofNat_of_lt' hend
    have hdataNat := UInt64.toNat_ofNat_of_lt' hdata
    refine ⟨_, hreadersNat, UInt64.ofNat (64 + 8 * maxReaders.toNat), ?_, layout.dataOffset, ?_, _,
      hdataNat, layout.totalSize, ?_, ?_⟩
    · rw [hendNat, hreadersNat]
      rfl
    · rw [hendNat]
      exact ⟨hfits, hoffset⟩
    · rw [htotal, hdataNat]
    · rw [← hreadersOffset]

/-- The mapping that `connect` takes: the element is as long as its own and the
layout it computes fits. -/
theorem connectLayout_eq_ok_iff {header : Header} {mapLen : UInt64} :
    connectLayout T header mapLen = .ok layout ↔
      (header.magic = magic ∧ header.version = version) ∧ header.elementSize = T.size ∧
      layoutFor T header.capacity header.maxReaders = .ok layout ∧ layout.totalSize ≤ mapLen := by
  unfold connectLayout
  by_cases hmagic : header.magic ≠ magic ∨ header.version ≠ version
  · rw [if_pos hmagic]
    refine iff_of_false (fun h => by cases h) ?_
    rintro ⟨hboth, _⟩
    exact hmagic.elim (fun h => h hboth.1) (fun h => h hboth.2)
  · rw [if_neg hmagic]
    simp only [not_or, Decidable.not_not] at hmagic
    rw [and_iff_right hmagic]
    by_cases hsize : header.elementSize ≠ T.size
    · rw [if_pos hsize]
      exact iff_of_false (fun h => by cases h) fun h => hsize h.1
    · rw [if_neg hsize, and_iff_right (Decidable.not_not.mp hsize)]
      cases layoutFor T header.capacity header.maxReaders with
      | error error => simp
      | ok found =>
        dsimp only
        split
        · rename_i hshort
          refine iff_of_false (fun h => by cases h) ?_
          rintro ⟨hfound, hfits⟩
          cases hfound
          exact UInt64.not_le.mpr hshort hfits
        · rename_i hfits
          constructor
          · intro h
            cases h
            exact ⟨rfl, UInt64.not_lt.mp hfits⟩
          · rintro ⟨hfound, _⟩
            cases hfound
            rfl

end Layouts

end Nnxt.MemoryLayout
