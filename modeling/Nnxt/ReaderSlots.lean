import Mathlib.Logic.Function.Basic
import Nnxt.Ring
import Nnxt.Foundation.Transition

/-!
# Reader slots, one atomic access at a time

The slots of one segment between concurrent calls: a scan of `connect` is one
compare-exchange a step, a read loads the write sequence and then stores its
cursor once or twice. A call holds its reader exclusively, so no reader is
dropped in the middle of a read.
-/

namespace Nnxt.ReaderSlots

set_option autoImplicit false

open FixedWidth Transition

/-- `try_read` compares the sequences for equality, the loops of `read` and
`read_timeout` for order. -/
inductive ReadKind where
  | tryRead
  | readPass
  deriving DecidableEq, Repr

def ReadKind.nothingNew (kind : ReadKind) (writeSeq readSeq : UInt64) : Bool :=
  match kind with
  | .tryRead => writeSeq = readSeq
  | .readPass => writeSeq ≤ readSeq

/-- Where a live reader stands: between calls, after the load of the write sequence,
or after the store that skips what was overwritten. -/
inductive ReadOp where
  | idle
  | loaded (kind : ReadKind) (writeSeq : UInt64)
  | skipped (seq : UInt64)
  deriving DecidableEq, Repr

inductive Phase where
  | absent
  | scanning (writeSeq : UInt64) (idx : Nat)
  | live (slot : Nat) (op : ReadOp)
  | slotsFull
  | dropped
  deriving DecidableEq, Repr

def Phase.slot : Phase → Option Nat
  | .live slot _ => some slot
  | _ => none

structure State (T : Type) where
  ring : Ring T
  writer : Writer
  readers : Nat → Phase

inductive Step where
  | beginConnect (reader : Nat)
  | compareExchange (reader : Nat)
  | beginRead (reader : Nat) (kind : ReadKind)
  | advance (reader : Nat)
  | drop (reader : Nat)
  | prepare
  | commit
  deriving DecidableEq, Repr

/-- The reader whose call takes the step; `none` for the writer. -/
def Step.reader : Step → Option Nat
  | .beginConnect reader => some reader
  | .compareExchange reader => some reader
  | .beginRead reader _ => some reader
  | .advance reader => some reader
  | .drop reader => some reader
  | .prepare => none
  | .commit => none

namespace State
variable {T : Type}

def start (ring : Ring T) (writer : Writer) : State T := ⟨ring, writer, fun _ => .absent⟩

def set (s : State T) (reader : Nat) (phase : Phase) : State T :=
  { s with readers := Function.update s.readers reader phase }

def store (s : State T) (slot : Nat) (seq : UInt64) : State T :=
  { s with ring := s.ring.storeReader slot seq }

/-- `connect` loads the write sequence before it scans. -/
def beginConnect (s : State T) (reader : Nat) : State T :=
  match s.readers reader with
  | .absent => s.set reader (.scanning s.ring.writeSeq 0)
  | _ => s

/-- One pass of the scan, or its end: a slot, the next index, or `ReaderSlotsFull`. -/
def compareExchange (s : State T) (reader : Nat) : State T :=
  match s.readers reader with
  | .scanning writeSeq idx =>
    if idx < s.ring.readSlots.length then
      if s.ring.readSeq idx = freeReader then
        (s.store idx writeSeq).set reader (.live idx .idle)
      else s.set reader (.scanning writeSeq (idx + 1))
    else s.set reader .slotsFull
  | _ => s

def beginRead (s : State T) (reader : Nat) (kind : ReadKind) : State T :=
  match s.readers reader with
  | .live slot .idle => s.set reader (.live slot (.loaded kind s.ring.writeSeq))
  | _ => s

def advance (s : State T) (reader : Nat) : State T :=
  match s.readers reader with
  | .live slot (.loaded kind writeSeq) =>
    let readSeq := s.ring.readSeq slot
    if kind.nothingNew writeSeq readSeq then s.set reader (.live slot .idle)
    else if s.ring.capacity < saturatingSub writeSeq readSeq then
      let seq := saturatingSub writeSeq s.ring.capacity
      (s.store slot seq).set reader (.live slot (.skipped seq))
    else (s.store slot (readSeq + 1)).set reader (.live slot .idle)
  | .live slot (.skipped seq) => (s.store slot (seq + 1)).set reader (.live slot .idle)
  | _ => s

def drop (s : State T) (reader : Nat) : State T :=
  match s.readers reader with
  | .live slot .idle => (s.store slot freeReader).set reader .dropped
  | _ => s

def step (s : State T) : Step → State T
  | .beginConnect reader => s.beginConnect reader
  | .compareExchange reader => s.compareExchange reader
  | .beginRead reader kind => s.beginRead reader kind
  | .advance reader => s.advance reader
  | .drop reader => s.drop reader
  | .prepare => { s with writer := s.ring.prepare s.writer }
  | .commit => { s with ring := (s.ring.commit s.writer).1, writer := (s.ring.commit s.writer).2 }

/-- A live reader holds the slot. -/
def Held (s : State T) (slot : Nat) : Prop := ∃ reader, (s.readers reader).slot = some slot

section Updates
variable (s : State T) {reader other : Nat} {slot : Nat} {phase : Phase} {seq : UInt64}

@[simp] theorem set_ring : (s.set reader phase).ring = s.ring := rfl

@[simp] theorem set_readers_self : (s.set reader phase).readers reader = phase := by
  simp [set]

theorem set_readers_ne (h : other ≠ reader) :
    (s.set reader phase).readers other = s.readers other := by
  simp [set, h]

@[simp] theorem store_ring : (s.store slot seq).ring = s.ring.storeReader slot seq := rfl

@[simp] theorem length_storeReader (r : Ring T) :
    (r.storeReader slot seq).readSlots.length = r.readSlots.length := List.length_set

end Updates

end State

/-! A call that nothing interrupts is the call of the ring. -/

section Uninterrupted

open State

variable {T : Type} {s : State T} {reader slot idx : Nat} {kind : ReadKind} {writeSeq : UInt64}

theorem beginRead_of_idle (h : s.readers reader = .live slot .idle) :
    s.beginRead reader kind = s.set reader (.live slot (.loaded kind s.ring.writeSeq)) := by
  unfold State.beginRead
  rw [h]

theorem advance_of_idle (h : s.readers reader = .live slot .idle) : s.advance reader = s := by
  unfold State.advance
  rw [h]

theorem advance_of_loaded (h : s.readers reader = .live slot (.loaded kind writeSeq)) :
    s.advance reader =
      if kind.nothingNew writeSeq (s.ring.readSeq slot) then s.set reader (.live slot .idle)
      else if s.ring.capacity < saturatingSub writeSeq (s.ring.readSeq slot) then
        (s.store slot (saturatingSub writeSeq s.ring.capacity)).set reader
          (.live slot (.skipped (saturatingSub writeSeq s.ring.capacity)))
      else (s.store slot (s.ring.readSeq slot + 1)).set reader (.live slot .idle) := by
  unfold State.advance
  rw [h]

theorem advance_of_skipped {seq : UInt64} (h : s.readers reader = .live slot (.skipped seq)) :
    s.advance reader = (s.store slot (seq + 1)).set reader (.live slot .idle) := by
  unfold State.advance
  rw [h]

/-- The operation of the ring that the steps of a read are cut from. -/
def ReadKind.call (kind : ReadKind) (ring : Ring T) (slot : Nat) : Ring T × Option UInt64 :=
  match kind with
  | .tryRead => ring.tryRead slot
  | .readPass => ring.readPass slot

theorem ReadKind.call_eq (kind : ReadKind) (ring : Ring T) (slot : Nat) :
    (kind.call ring slot).1 =
      if kind.nothingNew ring.writeSeq (ring.readSeq slot) then ring
      else if ring.capacity < saturatingSub ring.writeSeq (ring.readSeq slot) then
        (ring.storeReader slot (saturatingSub ring.writeSeq ring.capacity)).storeReader slot
          (saturatingSub ring.writeSeq ring.capacity + 1)
      else ring.storeReader slot (ring.readSeq slot + 1) := by
  cases kind with
  | tryRead =>
    unfold ReadKind.call Ring.tryRead ReadKind.nothingNew
    simp only [decide_eq_true_eq]
    split
    · rfl
    · split <;> rfl
  | readPass =>
    unfold ReadKind.call Ring.readPass ReadKind.nothingNew
    simp only [decide_eq_true_eq, ← UInt64.not_lt]
    by_cases hnew : ring.readSeq slot < ring.writeSeq
    · rw [if_pos hnew, if_neg (not_not_intro hnew)]
      split <;> rfl
    · rw [if_neg hnew, if_pos hnew]

theorem read_steps (h : s.readers reader = .live slot .idle) (kind : ReadKind) :
    (run step s [.beginRead reader kind, .advance reader, .advance reader]).ring =
        (kind.call s.ring slot).1 ∧
      (run step s [.beginRead reader kind, .advance reader, .advance reader]).readers reader =
        .live slot .idle := by
  simp only [run_cons, run_nil, step]
  rw [beginRead_of_idle h, advance_of_loaded (set_readers_self s), ReadKind.call_eq]
  rw [set_ring]
  split
  · rw [advance_of_idle (set_readers_self _)]
    exact ⟨rfl, set_readers_self _⟩
  · split
    · rw [advance_of_skipped (set_readers_self _)]
      exact ⟨rfl, set_readers_self _⟩
    · rw [advance_of_idle (set_readers_self _)]
      exact ⟨rfl, set_readers_self _⟩

theorem set_set (s : State T) (reader : Nat) (phase phase' : Phase) :
    (s.set reader phase).set reader phase' = s.set reader phase' := by
  unfold State.set
  rw [Function.update_idem]

theorem compareExchange_of_returned
    (h : ∀ writeSeq idx, s.readers reader ≠ .scanning writeSeq idx) :
    s.compareExchange reader = s := by
  unfold State.compareExchange
  split
  · rename_i writeSeq idx hscan
    exact absurd hscan (h writeSeq idx)
  · rfl

theorem run_compareExchange_of_returned {n : Nat}
    (h : ∀ writeSeq idx, s.readers reader ≠ .scanning writeSeq idx) :
    run step s (List.replicate n (.compareExchange reader)) = s := by
  induction n with
  | zero => rfl
  | succ n ih =>
    rw [List.replicate_succ, run_cons]
    change run step (s.compareExchange reader) _ = s
    rw [compareExchange_of_returned h, ih]

theorem readSeq_eq_getElem (ring : Ring T) {k : Nat} (h : k < ring.readSlots.length) :
    ring.readSeq k = ring.readSlots[k] := by
  simp [Ring.readSeq, List.getD_eq_getElem?_getD, h]

theorem findIdx_eq_none {ring : Ring T}
    (h : ∀ k, k < ring.readSlots.length → ring.readSeq k ≠ freeReader) :
    ring.readSlots.findIdx? (· = freeReader) = none := by
  apply List.findIdx?_eq_none_iff.mpr
  intro seq hseq
  obtain ⟨k, hk, rfl⟩ := List.getElem_of_mem hseq
  rw [← readSeq_eq_getElem ring hk]
  exact decide_eq_false (h k hk)

theorem findIdx_eq_some {ring : Ring T} {k : Nat} (hk : k < ring.readSlots.length)
    (hfree : ring.readSeq k = freeReader) (h : ∀ j, j < k → ring.readSeq j ≠ freeReader) :
    ring.readSlots.findIdx? (· = freeReader) = some k := by
  apply List.findIdx?_eq_some_iff_getElem.mpr
  refine ⟨hk, ?_, ?_⟩
  · rw [← readSeq_eq_getElem ring hk]
    exact decide_eq_true hfree
  · intro j hj
    rw [← readSeq_eq_getElem ring (hj.trans hk), decide_eq_true_eq]
    exact h j hj

theorem compareExchange_of_scanning (h : s.readers reader = .scanning writeSeq idx) :
    s.compareExchange reader =
      if idx < s.ring.readSlots.length then
        if s.ring.readSeq idx = freeReader then
          (s.store idx writeSeq).set reader (.live idx .idle)
        else s.set reader (.scanning writeSeq (idx + 1))
      else s.set reader .slotsFull := by
  unfold State.compareExchange
  rw [h]

/-- A scan by itself takes the first free slot, or finds none. -/
theorem scan_steps {n : Nat} (hscan : s.readers reader = .scanning writeSeq idx)
    (hlength : idx + n = s.ring.readSlots.length)
    (hpassed : ∀ k, k < idx → s.ring.readSeq k ≠ freeReader) :
    run step s (List.replicate (n + 1) (.compareExchange reader)) =
      match s.ring.readSlots.findIdx? (· = freeReader) with
      | some slot => (s.store slot writeSeq).set reader (.live slot .idle)
      | none => s.set reader .slotsFull := by
  rw [List.replicate_succ, run_cons]
  change run step (s.compareExchange reader) _ = _
  rw [compareExchange_of_scanning hscan]
  induction n generalizing s idx with
  | zero =>
    have hnone := @findIdx_eq_none T s.ring fun k hk => hpassed k (by omega)
    rw [if_neg (by omega), hnone]
    rfl
  | succ n ih =>
    have hidx : idx < s.ring.readSlots.length := by omega
    rw [if_pos hidx]
    by_cases hfree : s.ring.readSeq idx = freeReader
    · rw [if_pos hfree, findIdx_eq_some hidx hfree hpassed]
      apply run_compareExchange_of_returned
      intro w k hlive
      rw [set_readers_self] at hlive
      cases hlive
    · have hmoved : (s.set reader (.scanning writeSeq (idx + 1))).readers reader =
          .scanning writeSeq (idx + 1) := set_readers_self s
      rw [if_neg hfree, List.replicate_succ, run_cons]
      change run step ((s.set reader _).compareExchange reader) _ = _
      rw [compareExchange_of_scanning hmoved, ih hmoved]
      · rw [set_ring]
        cases s.ring.readSlots.findIdx? (· = freeReader) with
        | none => exact set_set s reader _ _
        | some slot => exact set_set (s.store slot writeSeq) reader _ _
      · rw [set_ring]
        omega
      · intro k hk
        rcases Nat.lt_succ_iff_lt_or_eq.mp hk with hbefore | heq
        · exact hpassed k hbefore
        · exact heq ▸ hfree

theorem beginConnect_of_absent (habsent : s.readers reader = .absent) :
    s.step (.beginConnect reader) = s.set reader (.scanning s.ring.writeSeq 0) := by
  change s.beginConnect reader = _
  unfold State.beginConnect
  rw [habsent]

theorem connect_steps (habsent : s.readers reader = .absent) :
    run step s (.beginConnect reader ::
        List.replicate (s.ring.readSlots.length + 1) (.compareExchange reader)) =
      match s.ring.connect with
      | .ok (ring, slot) => { s with ring := ring }.set reader (.live slot .idle)
      | .error _ => s.set reader .slotsFull := by
  have hscan : (s.set reader (.scanning s.ring.writeSeq 0)).readers reader =
      .scanning s.ring.writeSeq 0 := set_readers_self s
  have hsteps := scan_steps hscan (Nat.zero_add _) fun k hk => absurd hk (Nat.not_lt_zero k)
  rw [run_cons, beginConnect_of_absent habsent]
  refine hsteps.trans ?_
  unfold Ring.connect
  rw [set_ring]
  cases s.ring.readSlots.findIdx? (· = freeReader) with
  | none => exact set_set s reader _ _
  | some slot => exact set_set (s.store slot s.ring.writeSeq) reader _ _

end Uninterrupted

end Nnxt.ReaderSlots
