import Nnxt.SoundLayout
import Nnxt.Foundation.ByteMemory
import Nnxt.Foundation.KeyedList

/-!
# What the two ends of a segment see

A writer of one message type and a reader of another on the same segment. The
header carries the size of an element and neither its alignment nor its fields.
-/

namespace Nnxt.SharedView

set_option autoImplicit false

open MemoryLayout Alignment ByteMemory KeyedList

/-- A named field in the bytes of its message. -/
structure FieldLayout (F : Type) where
  field : F
  offset : Nat
  size : Nat
  deriving DecidableEq

structure MessageType (F : Type) extends ElementLayout where
  fields : List (FieldLayout F)
  keyed : Keyed FieldLayout.field fields
  within : ∀ f ∈ fields, f.offset + f.size ≤ size.toNat
  apart : fields.Pairwise fun f g => f.offset + f.size ≤ g.offset ∨ g.offset + g.size ≤ f.offset

/-- `repr(C)`: each field, given with its size and its alignment, at the next
multiple of its alignment. -/
def placeFields {F : Type} (start : Nat) : List (F × Nat × Nat) → List (FieldLayout F)
  | [] => []
  | (field, size, align) :: rest =>
    ⟨field, roundUp start align, size⟩ :: placeFields (roundUp start align + size) rest

structure Message {F : Type} (U : MessageType F) where
  bytes : F → List UInt8
  length : ∀ f ∈ U.fields, (bytes f.field).length = f.size

/-- `create_with_readers` once the segment is there: its header, and the layout whose
total is the length of the mapping. -/
def createSegment (U : ElementLayout) (capacity maxReaders : UInt64) :
    Except RingError (Header × Layout) :=
  match layoutFor U capacity maxReaders with
  | .error error => .error error
  | .ok layout => .ok (Header.new capacity U.size maxReaders, layout)

/-- `Reader<T>::connect` accepts a segment of a `Writer<U>` that has published `writeSeq` messages. -/
structure Accepted (T U : ElementLayout) (capacity maxReaders writeSeq : UInt64)
    (writer reader : Layout) : Prop where
  created : createSegment U capacity maxReaders =
    .ok (Header.new capacity U.size maxReaders, writer)
  connected : connectLayout T { Header.new capacity U.size maxReaders with writeSeq := writeSeq }
    writer.totalSize = .ok reader

/-- Where the data slots start: the end of the reader slots rounded up, in 64 bits. -/
def dataStart (T : ElementLayout) (maxReaders : UInt64) : Nat :=
  roundUp ((64 + 8 * maxReaders.toNat) % 2 ^ 64) T.align.toNat % 2 ^ 64

def readerSlotAddress (layout : Layout) (idx : Nat) : Nat :=
  layout.readersOffset.toNat + atomicSize.toNat * idx

def slotAddress (T : ElementLayout) (layout : Layout) (slot : Nat) : Nat :=
  layout.dataOffset.toNat + T.size.toNat * slot

section Messages
variable {F : Type} {T U : MessageType F}

def store (m : Memory) (address : Nat) (msg : Message U) : Memory :=
  m.writeAll (U.fields.map fun f => (address + f.offset, msg.bytes f.field))

/-- The bytes of a field of a message read at `address`; `none` for a field it has not. -/
def load [DecidableEq F] (T : MessageType F) (m : Memory) (address : Nat) (field : F) :
    Option (List UInt8) :=
  (entry FieldLayout.field T.fields field).map fun f => m.read (address + f.offset) f.size

def value [DecidableEq F] (msg : Message U) (field : F) : Option (List UInt8) :=
  (entry FieldLayout.field U.fields field).map fun f => msg.bytes f.field

/-- The same fields at the same offsets. -/
def SameFields (T U : MessageType F) : Prop := ∀ f, f ∈ T.fields ↔ f ∈ U.fields

theorem pairwise_parts (address : Nat) (msg : Message U) :
    (U.fields.map fun f => (address + f.offset, msg.bytes f.field)).Pairwise Apart := by
  apply List.pairwise_map.mpr
  apply U.apart.imp_of_mem
  intro f g hf hg hapart
  unfold Apart
  dsimp only
  rw [msg.length f hf, msg.length g hg]
  omega

/-- A field is read back as it was written. -/
theorem read_store (m : Memory) (address : Nat) (msg : Message U) {f : FieldLayout F}
    (hf : f ∈ U.fields) :
    (store m address msg).read (address + f.offset) f.size = msg.bytes f.field := by
  have hread := @read_writeAll m _ (address + f.offset, msg.bytes f.field)
    (pairwise_parts address msg) (List.mem_map_of_mem hf)
  rwa [msg.length f hf] at hread

theorem load_store [DecidableEq F] (hsame : SameFields T U) (m : Memory) (address : Nat)
    (msg : Message U) : load T (store m address msg) address = value msg := by
  funext field
  unfold load value
  have hentry : entry FieldLayout.field T.fields field = entry FieldLayout.field U.fields field := by
    apply Option.ext
    intro f
    rw [T.keyed.entry_eq_some_iff, U.keyed.entry_eq_some_iff, hsame f]
  rw [hentry]
  cases hfound : entry FieldLayout.field U.fields field with
  | none => rfl
  | some f =>
    have hread := read_store m address msg (mem_of_entry hfound)
    exact congrArg some hread

end Messages

section Views
variable {F : Type} [DecidableEq F]

/-- Both ends address the same slots, and the reader finds in them what was written. -/
structure CommonView (T U : MessageType F) (writer reader : Layout) : Prop where
  readersOffset : reader.readersOffset = writer.readersOffset
  dataOffset : reader.dataOffset = writer.dataOffset
  readerSlots : ∀ idx, readerSlotAddress reader idx = readerSlotAddress writer idx
  slots : ∀ slot, slotAddress T.toElementLayout reader slot = slotAddress U.toElementLayout writer slot
  fields : SameFields T U
  message : ∀ (m : Memory) (slot : Nat) (msg : Message U),
    load T (store m (slotAddress U.toElementLayout writer slot) msg)
      (slotAddress T.toElementLayout reader slot) = value msg

/-- What an accepted connection is sure of, and when the view is common. -/
structure AcceptedView (T U : MessageType F) (maxReaders : UInt64) (writer reader : Layout) :
    Prop where
  size : T.size = U.size
  readersOffset : reader.readersOffset = writer.readersOffset
  readerSlots : ∀ idx, readerSlotAddress reader idx = readerSlotAddress writer idx
  dataOffset : reader.dataOffset ≤ writer.dataOffset
  common_iff : CommonView T U writer reader ↔
    dataStart T.toElementLayout maxReaders = dataStart U.toElementLayout maxReaders ∧ SameFields T U

end Views

section Accepted
variable {T U : ElementLayout} {capacity maxReaders writeSeq : UInt64} {writer reader : Layout}

theorem accepted_iff :
    Accepted T U capacity maxReaders writeSeq writer reader ↔
      layoutFor U capacity maxReaders = .ok writer ∧ T.size = U.size ∧
      layoutFor T capacity maxReaders = .ok reader ∧ reader.totalSize ≤ writer.totalSize := by
  constructor
  · rintro ⟨hcreated, hconnected⟩
    obtain ⟨_, hsize, hreader, hfits⟩ := connectLayout_eq_ok_iff.mp hconnected
    refine ⟨?_, hsize.symm, hreader, hfits⟩
    unfold createSegment at hcreated
    cases hwriter : layoutFor U capacity maxReaders with
    | error error =>
      rw [hwriter] at hcreated
      cases hcreated
    | ok found =>
      rw [hwriter] at hcreated
      cases hcreated
      rfl
  · rintro ⟨hwriter, hsize, hreader, hfits⟩
    refine ⟨?_, connectLayout_eq_ok_iff.mpr ⟨⟨rfl, rfl⟩, hsize.symm, hreader, hfits⟩⟩
    rw [createSegment, hwriter]

theorem Accepted.readersOffset_eq (h : Accepted T U capacity maxReaders writeSeq writer reader) :
    reader.readersOffset = writer.readersOffset := by
  obtain ⟨hwriter, _, hreader, _⟩ := accepted_iff.mp h
  rw [(layoutFor_eq_ok_iff.mp hwriter).2.2.2.1, (layoutFor_eq_ok_iff.mp hreader).2.2.2.1]

theorem dataOffset_eq_dataStart {layout : Layout} (h : layoutFor T capacity maxReaders = .ok layout) :
    layout.dataOffset.toNat = dataStart T maxReaders := (layoutFor_eq_ok_iff.mp h).2.2.2.2.1

theorem Accepted.dataOffset_eq_iff (h : Accepted T U capacity maxReaders writeSeq writer reader) :
    reader.dataOffset = writer.dataOffset ↔ dataStart T maxReaders = dataStart U maxReaders := by
  obtain ⟨hwriter, _, hreader, _⟩ := accepted_iff.mp h
  rw [← dataOffset_eq_dataStart hwriter, ← dataOffset_eq_dataStart hreader, UInt64.toNat_inj]

/-- The elements are equally long, so a total that fits puts the data no later. -/
theorem Accepted.dataOffset_le (h : Accepted T U capacity maxReaders writeSeq writer reader) :
    reader.dataOffset ≤ writer.dataOffset := by
  obtain ⟨hwriter, hsize, hreader, hfits⟩ := accepted_iff.mp h
  have hwriterTotal := (layoutFor_eq_ok_iff.mp hwriter).2.2.2.2.2
  have hreaderTotal := (layoutFor_eq_ok_iff.mp hreader).2.2.2.2.2
  rw [hsize] at hreaderTotal
  rw [UInt64.le_iff_toNat_le] at hfits ⊢
  omega

end Accepted

section Theorems
variable {F : Type} [DecidableEq F] {T U : MessageType F} {capacity maxReaders writeSeq : UInt64}
  {writer reader : Layout}

/-- Every connection that is accepted, for all types, capacities and numbers of readers. -/
theorem view_of_accepted
    (h : Accepted T.toElementLayout U.toElementLayout capacity maxReaders writeSeq writer reader) :
    AcceptedView T U maxReaders writer reader := by
  have hreaders := h.readersOffset_eq
  have hsize := (accepted_iff.mp h).2.1
  have hslots : ∀ idx, readerSlotAddress reader idx = readerSlotAddress writer idx := by
    intro idx
    rw [readerSlotAddress, readerSlotAddress, hreaders]
  refine ⟨hsize, hreaders, hslots, h.dataOffset_le, ?_⟩
  constructor
  · intro hcommon
    exact ⟨h.dataOffset_eq_iff.mp hcommon.dataOffset, hcommon.fields⟩
  · rintro ⟨hstart, hfields⟩
    have hdata := h.dataOffset_eq_iff.mpr hstart
    have haddress : ∀ slot, slotAddress T.toElementLayout reader slot =
        slotAddress U.toElementLayout writer slot := by
      intro slot
      rw [slotAddress, slotAddress, hdata, hsize]
    refine ⟨hreaders, hdata, hslots, haddress, hfields, ?_⟩
    intro m slot msg
    rw [haddress slot]
    exact load_store hfields m _ msg

end Theorems

inductive EventField where
  | instrumentId | orderId | tradeId | status | side | filledQuantity | remainingQuantity
  | lastPrice | price | quantity | timestamp
  deriving DecidableEq, Repr

def orderEvent : MessageType EventField where
  size := 112
  align := 8
  align_pow := word_align_pow
  align_dvd := by decide
  fields := placeFields 0 [(.instrumentId, 64, 1), (.orderId, 8, 8), (.status, 1, 1),
    (.filledQuantity, 8, 8), (.remainingQuantity, 8, 8), (.lastPrice, 8, 8), (.timestamp, 8, 8)]
  keyed := by decide
  within := by decide
  apart := by decide

def tradeEvent : MessageType EventField where
  size := 112
  align := 8
  align_pow := word_align_pow
  align_dvd := by decide
  fields := placeFields 0 [(.instrumentId, 64, 1), (.tradeId, 8, 8), (.orderId, 8, 8),
    (.side, 1, 1), (.price, 8, 8), (.quantity, 8, 8), (.timestamp, 8, 8)]
  keyed := by decide
  within := by decide
  apart := by decide

def eventLayout : Layout := ⟨64, 192, 114880⟩

theorem layoutFor_events {T : MessageType EventField} (hsize : T.size = 112) (halign : T.align = 8) :
    layoutFor T.toElementLayout 1024 16 = .ok eventLayout := by
  apply layoutFor_eq_ok_iff.mpr
  rw [hsize, halign]
  decide

theorem view_of_accepted_order_events : CommonView orderEvent orderEvent eventLayout eventLayout := by
  have hlayout := @layoutFor_events orderEvent rfl rfl
  have haccepted : Accepted orderEvent.toElementLayout orderEvent.toElementLayout 1024 16 0 eventLayout
      eventLayout := accepted_iff.mpr ⟨hlayout, rfl, hlayout, UInt64.le_refl _⟩
  exact (view_of_accepted haccepted).common_iff.mpr ⟨rfl, fun f => Iff.rfl⟩

/-- 64 bytes, aligned to the cache line or to the word. -/
def snapshot (align : UInt64) (hpow : ∃ k, align.toNat = 2 ^ k) (hdvd : align.toNat ∣ 64) :
    MessageType EventField where
  size := 64
  align := align
  align_pow := hpow
  align_dvd := hdvd
  fields := placeFields 0 [(.quantity, 8, 8)]
  keyed := by decide
  within := by decide
  apart := by decide

def lineAligned : MessageType EventField := snapshot 64 ⟨6, rfl⟩ (by decide)

def wordAligned : MessageType EventField := snapshot 8 word_align_pow (by decide)

/-- Order events are read out of a segment of trade events; and with one and the same
field, the reader looks for it 56 bytes before the place where it was written. -/
theorem accepted_without_common_view :
    (Accepted orderEvent.toElementLayout tradeEvent.toElementLayout 1024 16 0 eventLayout eventLayout ∧
      ¬ CommonView orderEvent tradeEvent eventLayout eventLayout) ∧
    Accepted wordAligned.toElementLayout lineAligned.toElementLayout 1 1 0 ⟨64, 128, 192⟩
        ⟨64, 72, 136⟩ ∧
      ¬ CommonView wordAligned lineAligned ⟨64, 128, 192⟩ ⟨64, 72, 136⟩ := by
  refine ⟨⟨?_, ?_⟩, ?_, ?_⟩
  · exact accepted_iff.mpr ⟨layoutFor_events rfl rfl, rfl, layoutFor_events rfl rfl,
      UInt64.le_refl _⟩
  · intro hcommon
    have hstatus : (⟨.status, 72, 1⟩ : FieldLayout EventField) ∈ orderEvent.fields := by decide
    have hmissing : (⟨.status, 72, 1⟩ : FieldLayout EventField) ∉ tradeEvent.fields := by decide
    exact hmissing ((hcommon.fields _).mp hstatus)
  · exact accepted_iff.mpr ⟨layoutFor_eq_ok_iff.mpr (by decide), rfl,
      layoutFor_eq_ok_iff.mpr (by decide), by decide⟩
  · intro hcommon
    exact absurd hcommon.dataOffset (by decide)

end Nnxt.SharedView
