import Mathlib.Order.MinMax
import Nnxt.Foundation.FixedWidth

/-!
# The shared-memory ring

The header, the reader slots and the data area of one segment, and the
operations of its writer and its readers. Sequence numbers are `u64` and wrap.
A reference into the data area is named by the sequence number it was handed
out for; what it points to is whatever the slot holds when it is followed.
-/

namespace Nnxt

set_option autoImplicit false

open FixedWidth

def freeReader : UInt64 := 0xFFFFFFFFFFFFFFFF

/-- The failures of `create` and `connect` that do not come from the system. -/
inductive RingError where
  | capacityTooSmall
  | readerSlotsFull
  deriving DecidableEq, Repr

structure Ring (T : Type) where
  capacity : UInt64
  writeSeq : UInt64
  readSlots : List UInt64
  data : Vector T capacity.toNat
  capacity_pos : 0 < capacity.toNat

structure Writer where
  pendingSeq : UInt64
  hasPending : Bool
  deriving DecidableEq, Repr

namespace Ring
variable {T : Type}

/-- `Writer::create_with_readers`: every reader slot free, the data area zeroed. -/
def create (capacity : UInt64) (maxReaders : Nat) (zero : T) : Except RingError (Ring T × Writer) :=
  if h : 0 < capacity.toNat then
    .ok (⟨capacity, 0, List.replicate maxReaders freeReader, Vector.replicate _ zero, h⟩, ⟨0, false⟩)
  else .error .capacityTooSmall

def slot (r : Ring T) (seq : UInt64) : Fin r.capacity.toNat :=
  ⟨(seq % r.capacity).toNat, by
    rw [UInt64.toNat_mod]
    exact Nat.mod_lt _ r.capacity_pos⟩

def load (r : Ring T) (seq : UInt64) : T := r.data.get (r.slot seq)

def store (r : Ring T) (seq : UInt64) (value : T) : Ring T :=
  { r with data := r.data.set (r.slot seq) value (r.slot seq).isLt }

def readSeq (r : Ring T) (reader : Nat) : UInt64 := r.readSlots.getD reader freeReader

def storeReader (r : Ring T) (reader : Nat) (seq : UInt64) : Ring T :=
  { r with readSlots := r.readSlots.set reader seq }

/-- `Writer::prepare`; the slot handed out is the one of `pendingSeq`. -/
def prepare (r : Ring T) (w : Writer) : Writer :=
  { w with pendingSeq := r.writeSeq, hasPending := true }

def commit (r : Ring T) (w : Writer) : Ring T × Writer :=
  if w.hasPending then
    ({ r with writeSeq := w.pendingSeq + 1 }, { w with hasPending := false })
  else (r, w)

def write (r : Ring T) (w : Writer) (value : T) : Ring T × Writer :=
  let w := r.prepare w
  let r := r.store w.pendingSeq value
  r.commit w

/-- `Reader::connect` takes the first free slot and starts at the current end. -/
def connect (r : Ring T) : Except RingError (Ring T × Nat) :=
  match r.readSlots.findIdx? (· = freeReader) with
  | some reader => .ok (r.storeReader reader r.writeSeq, reader)
  | none => .error .readerSlotsFull

def tryRead (r : Ring T) (reader : Nat) : Ring T × Option UInt64 :=
  let readSeq := r.readSeq reader
  if r.writeSeq = readSeq then (r, none)
  else if r.capacity < saturatingSub r.writeSeq readSeq then
    let readSeq := saturatingSub r.writeSeq r.capacity
    let r := r.storeReader reader readSeq
    (r.storeReader reader (readSeq + 1), some readSeq)
  else (r.storeReader reader (readSeq + 1), some readSeq)

/-- One pass of the loops of `read` and `read_timeout`. -/
def readPass (r : Ring T) (reader : Nat) : Ring T × Option UInt64 :=
  let readSeq := r.readSeq reader
  if readSeq < r.writeSeq then
    if r.capacity < saturatingSub r.writeSeq readSeq then
      let newSeq := saturatingSub r.writeSeq r.capacity
      let r := r.storeReader reader newSeq
      (r.storeReader reader (newSeq + 1), some newSeq)
    else (r.storeReader reader (readSeq + 1), some readSeq)
  else (r, none)

/-- `Reader::read` after at most the given number of passes; `none` while it blocks. -/
def read (r : Ring T) (reader : Nat) : Nat → Option (Ring T × UInt64)
  | 0 => none
  | passes + 1 =>
    match r.readPass reader with
    | (r, some seq) => some (r, seq)
    | (r, none) => r.read reader passes

/-- `Reader::read_timeout`; the list holds the successive readings of
`start.elapsed()`, and the result is `none` while they have not run out. -/
def readTimeout (r : Ring T) (reader timeout : Nat) : List Nat → Option (Ring T × Option UInt64)
  | [] => none
  | elapsed :: later =>
    match r.readPass reader with
    | (r, some seq) => some (r, some seq)
    | (r, none) => if timeout ≤ elapsed then some (r, none) else r.readTimeout reader timeout later

def drop (r : Ring T) (reader : Nat) : Ring T := r.storeReader reader freeReader

def lag (r : Ring T) (reader : Nat) : UInt64 := saturatingSub r.writeSeq (r.readSeq reader)

section Slots
variable (r : Ring T)

@[simp] theorem storeReader_load (reader : Nat) (seq seq' : UInt64) :
    (r.storeReader reader seq).load seq' = r.load seq' := rfl

/-- Storing into a slot changes what is loaded from that slot and from no other. -/
theorem load_store (seq seq' : UInt64) (value : T) :
    (r.store seq value).load seq' =
      if seq.toNat % r.capacity.toNat = seq'.toNat % r.capacity.toNat then value
      else r.load seq' := by
  have hslot : ∀ s : UInt64, (r.slot s).val = s.toNat % r.capacity.toNat := fun s =>
    UInt64.toNat_mod s r.capacity
  have hget := @Vector.getElem_set _ _ r.data _ value (r.slot seq).isLt _ (r.slot seq').isLt
  rw [← hslot, ← hslot]
  exact hget

theorem readSeq_storeReader_self {reader : Nat} (h : reader < r.readSlots.length) (seq : UInt64) :
    (r.storeReader reader seq).readSeq reader = seq := by
  simp [readSeq, storeReader, List.getD_eq_getElem?_getD, h]

theorem readSeq_storeReader_ne {reader other : Nat} (hne : other ≠ reader) (seq : UInt64) :
    (r.storeReader reader seq).readSeq other = r.readSeq other := by
  simp [readSeq, storeReader, List.getD_eq_getElem?_getD, List.getElem?_set_ne (Ne.symm hne)]

theorem storeReader_storeReader (reader : Nat) (seq seq' : UInt64) :
    (r.storeReader reader seq).storeReader reader seq' = r.storeReader reader seq' := by
  simp [storeReader]

theorem connect_ok {r' : Ring T} {reader : Nat} (h : r.connect = .ok (r', reader)) :
    reader < r.readSlots.length ∧ r.readSeq reader = freeReader ∧
      r' = r.storeReader reader r.writeSeq := by
  unfold connect at h
  cases hf : r.readSlots.findIdx? (· = freeReader) with
  | none =>
    rw [hf] at h
    cases h
  | some i =>
    rw [hf] at h
    cases h
    obtain ⟨hlt, hfree, _⟩ := List.findIdx?_eq_some_iff_getElem.mp hf
    refine ⟨hlt, ?_, rfl⟩
    simpa [readSeq, List.getD_eq_getElem?_getD, hlt] using hfree

end Slots

section Reads
variable (r : Ring T)

def served (reader : Nat) : UInt64 :=
  if r.capacity < saturatingSub r.writeSeq (r.readSeq reader) then
    saturatingSub r.writeSeq r.capacity
  else r.readSeq reader

variable {r} {reader : Nat}

theorem toNat_served (h : (r.readSeq reader).toNat ≤ r.writeSeq.toNat) :
    (r.served reader).toNat =
      max (r.readSeq reader).toNat (r.writeSeq.toNat - r.capacity.toNat) := by
  unfold served
  split
  · rename_i hlag
    rw [UInt64.lt_iff_toNat_lt, toNat_saturatingSub] at hlag
    rw [toNat_saturatingSub, Nat.max_eq_right (by omega)]
  · rename_i hlag
    rw [UInt64.lt_iff_toNat_lt, toNat_saturatingSub] at hlag
    rw [Nat.max_eq_left (by omega)]

theorem tryRead_caughtUp (h : r.readSeq reader = r.writeSeq) : r.tryRead reader = (r, none) :=
  if_pos h.symm

theorem readPass_caughtUp (h : r.readSeq reader = r.writeSeq) : r.readPass reader = (r, none) := by
  unfold readPass
  rw [h, if_neg (UInt64.lt_irrefl _)]

theorem tryRead_behind (h : r.readSeq reader < r.writeSeq) :
    r.tryRead reader = (r.storeReader reader (r.served reader + 1), some (r.served reader)) := by
  have hne : r.writeSeq ≠ r.readSeq reader := fun heq => UInt64.lt_irrefl _ (heq ▸ h)
  simp only [tryRead, if_neg hne, served]
  split
  · rw [storeReader_storeReader]
  · rfl

theorem readPass_behind (h : r.readSeq reader < r.writeSeq) :
    r.readPass reader = (r.storeReader reader (r.served reader + 1), some (r.served reader)) := by
  simp only [readPass, if_pos h, served]
  split
  · rw [storeReader_storeReader]
  · rfl

/-- The separately written paths agree for a reader that is not ahead of the writer. -/
theorem readPass_eq_tryRead (h : (r.readSeq reader).toNat ≤ r.writeSeq.toNat) :
    r.readPass reader = r.tryRead reader := by
  rcases Nat.lt_or_eq_of_le h with hlt | heq
  · rw [readPass_behind (UInt64.lt_iff_toNat_lt.mpr hlt), tryRead_behind (UInt64.lt_iff_toNat_lt.mpr hlt)]
  · rw [readPass_caughtUp (UInt64.toNat_inj.mp heq), tryRead_caughtUp (UInt64.toNat_inj.mp heq)]

theorem read_behind (h : r.readSeq reader < r.writeSeq) (passes : Nat) :
    r.read reader (passes + 1) =
      some (r.storeReader reader (r.served reader + 1), r.served reader) := by
  simp only [read, readPass_behind h]

theorem read_caughtUp (h : r.readSeq reader = r.writeSeq) (passes : Nat) :
    r.read reader passes = none := by
  induction passes with
  | zero => rfl
  | succ passes ih => simp only [read, readPass_caughtUp h, ih]

theorem readTimeout_behind (h : r.readSeq reader < r.writeSeq) (timeout elapsed : Nat)
    (later : List Nat) :
    r.readTimeout reader timeout (elapsed :: later) =
      some (r.storeReader reader (r.served reader + 1), some (r.served reader)) := by
  simp only [readTimeout, readPass_behind h]

theorem readTimeout_caughtUp (h : r.readSeq reader = r.writeSeq) (timeout : Nat)
    (elapsed : List Nat) :
    r.readTimeout reader timeout elapsed =
      if ∃ e ∈ elapsed, timeout ≤ e then some (r, none) else none := by
  induction elapsed with
  | nil => simp [readTimeout]
  | cons e elapsed ih =>
    simp only [readTimeout, readPass_caughtUp h, ih, List.mem_cons, exists_eq_or_imp]
    by_cases he : timeout ≤ e
    · rw [if_pos he, if_pos (Or.inl he)]
    · simp only [he, if_false, false_or]

end Reads

end Ring

end Nnxt
