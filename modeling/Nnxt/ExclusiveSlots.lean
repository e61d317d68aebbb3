import Nnxt.SlotScans

/-!
# Reader slots are owned exclusively

Over every interleaving of connects, reads, drops and commits on one segment,
as long as no sequence number reaches the mark of a free slot.
-/

namespace Nnxt.ReaderSlots

set_option autoImplicit false

open Transition

variable {T : Type}

/-- A `connect` that begins in `s`, with the steps `js` between its start and the end considered. -/
structure ConnectOutcome (s : State T) (reader : Nat) (js : List Step) : Prop where
  returns : s.ring.readSlots.length < js.count (.compareExchange reader) → ∀ writeSeq idx,
    (run State.step (s.step (.beginConnect reader)) js).readers reader ≠ .scanning writeSeq idx
  full_iff : (∀ writeSeq idx,
      (run State.step (s.step (.beginConnect reader)) js).readers reader ≠
        .scanning writeSeq idx) →
    ((run State.step (s.step (.beginConnect reader)) js).readers reader = .slotsFull ↔
      ∀ slot, slot < s.ring.readSlots.length → s.Held slot)
  unchanged : (run State.step (s.step (.beginConnect reader)) js).readers reader = .slotsFull →
    ∀ ks, ks ++ [.compareExchange reader] <+: js →
      (run State.step (s.step (.beginConnect reader)) (ks ++ [.compareExchange reader])).ring =
        (run State.step (s.step (.beginConnect reader)) ks).ring

structure Exclusive (maxReaders : Nat) (s : State T) : Prop where
  length : s.ring.readSlots.length = maxReaders
  inRange : ∀ reader slot, (s.readers reader).slot = some slot → slot < maxReaders
  distinct : ∀ reader other slot, (s.readers reader).slot = some slot →
    (s.readers other).slot = some slot → reader = other
  free_iff : ∀ slot, slot < maxReaders → (s.ring.readSeq slot = freeReader ↔ ¬ s.Held slot)
  unchanged : ∀ reader slot i, (s.readers reader).slot = some slot → i.reader ≠ some reader →
    (s.step i).ring.readSeq slot = s.ring.readSeq slot
  connect : ∀ reader js, s.readers reader = .absent → (∀ j ∈ js, Quiet reader j) →
    Always State.step Below (s.step (.beginConnect reader)) js → ConnectOutcome s reader js

section Connects
variable {s : State T} {reader : Nat} {js : List Step}

theorem scanned_beginConnect (hown : Owned s) (hbelow : Below s)
    (habsent : s.readers reader = .absent) :
    Scanned s reader (s.step (.beginConnect reader)) := by
  refine ⟨hown.step hbelow _, (hown.step_effect hbelow _).length_eq, ?_⟩
  rw [beginConnect_of_absent habsent]
  unfold ScanStatus
  rw [State.set_readers_self]
  refine ⟨Nat.zero_le _, fun slot hslot => absurd hslot (Nat.not_lt_zero slot), ?_⟩
  intro slot
  apply held_set_of_eq
  rw [habsent]
  rfl

/-- A compare-exchange on a slot that is not free leaves the ring as it is. -/
theorem ring_compareExchange_of_held {writeSeq : UInt64} {idx : Nat} (hown : Owned s)
    (hbelow : Below s) (hphase : s.readers reader = .scanning writeSeq idx)
    (hheld : ∀ slot, slot < s.ring.readSlots.length → s.Held slot) :
    (s.compareExchange reader).ring = s.ring := by
  rw [compareExchange_of_scanning hphase]
  split
  · rename_i hlt
    rw [if_neg fun hfree => (hown.free_iff hbelow hlt).mp hfree (hheld idx hlt)]
    rfl
  · rfl

/-- The reader holds a slot that was free, or every slot was held. -/
theorem Scanned.slotsFull_iff {t : State T} (h : Scanned s reader t)
    (hreturned : ∀ writeSeq idx, t.readers reader ≠ .scanning writeSeq idx) :
    t.readers reader = .slotsFull ↔ ∀ slot, slot < s.ring.readSlots.length → s.Held slot := by
  have hstatus := h.status
  unfold ScanStatus at hstatus
  rw [h.length] at hstatus
  cases hphase : t.readers reader with
  | slotsFull =>
    rw [hphase] at hstatus
    exact iff_of_true rfl hstatus
  | live slot op =>
    rw [hphase] at hstatus
    exact iff_of_false (fun h => by cases h) fun hall => hstatus.2 (hall slot hstatus.1)
  | scanning writeSeq idx => exact absurd hphase (hreturned writeSeq idx)
  | absent =>
    rw [hphase] at hstatus
    exact absurd hstatus id
  | dropped =>
    rw [hphase] at hstatus
    exact absurd hstatus id

theorem Scanned.idx_le {t : State T} {writeSeq : UInt64} {idx : Nat} (h : Scanned s reader t)
    (hscan : t.readers reader = .scanning writeSeq idx) : idx ≤ s.ring.readSlots.length := by
  rw [← h.length]
  exact ((scanStatus_of_scanning hscan).mp h.status).1

/-- Where every slot was held when the scan began, its compare-exchanges change nothing. -/
theorem Scanned.ring_compareExchange {t : State T} (h : Scanned s reader t) (hbelow : Below t)
    (hall : ∀ slot, slot < s.ring.readSlots.length → s.Held slot) :
    (t.compareExchange reader).ring = t.ring := by
  by_cases hscan : ∃ writeSeq idx, t.readers reader = .scanning writeSeq idx
  · obtain ⟨writeSeq, idx, hphase⟩ := hscan
    apply ring_compareExchange_of_held h.owned hbelow hphase
    intro slot hslot
    have hheld := ((scanStatus_of_scanning hphase).mp h.status).2.2
    exact (hheld slot).mpr (hall slot (h.length ▸ hslot))
  · rw [compareExchange_of_returned fun writeSeq idx hphase => hscan ⟨writeSeq, idx, hphase⟩]

theorem connectOutcome (hown : Owned s) (hbelow : Below s) (habsent : s.readers reader = .absent)
    (hquiet : ∀ j ∈ js, Quiet reader j)
    (hwithin : Always State.step Below (s.step (.beginConnect reader)) js) :
    ConnectOutcome s reader js := by
  have hscanned := (scanned_beginConnect hown hbelow habsent).always hquiet hwithin
  have hlast := hscanned.last
  have hstart : (s.step (.beginConnect reader)).readers reader = .scanning s.ring.writeSeq 0 := by
    rw [beginConnect_of_absent habsent, State.set_readers_self]
  refine ⟨?_, hlast.slotsFull_iff, ?_⟩
  · intro hcount writeSeq idx hscan
    have hidx := scanning_idx_eq_count hstart hquiet (hscanned.mono fun _ h => h.owned) hwithin hscan
    have hle := hlast.idx_le hscan
    omega
  · intro hfull ks hks
    have hall := (hlast.slotsFull_iff fun writeSeq idx hscan => by
      rw [hfull] at hscan
      cases hscan).mp hfull
    have hprefix := (List.prefix_append ks [Step.compareExchange reader]).trans hks
    rw [run_append]
    exact (hscanned ks hprefix).ring_compareExchange (hwithin ks hprefix) hall

end Connects

theorem exclusive_of_owned {s : State T} {maxReaders : Nat} (hown : Owned s) (hbelow : Below s)
    (hlength : s.ring.readSlots.length = maxReaders) : Exclusive maxReaders s where
  length := hlength
  inRange := fun _ _ hslot => hlength ▸ hown.slot_lt hslot
  distinct := hown.distinct
  free_iff := fun _ hslot => hown.free_iff hbelow (hlength.symm ▸ hslot)
  unchanged := fun _ _ i hslot hactor =>
    hown.unchanged hbelow (hown.step_effect hbelow i) hslot hactor
  connect := fun _ _ habsent hquiet hwithin => connectOutcome hown hbelow habsent hquiet hwithin

/-- Whatever the capacity, the number of slots and the interleaving: in every state
in which no sequence number has reached `u64::MAX`, the slots are owned exclusively. -/
theorem slots_owned_exclusively {capacity : UInt64} {maxReaders : Nat} {zero : T} {ring : Ring T}
    {writer : Writer} (hcreate : Ring.create capacity maxReaders zero = .ok (ring, writer))
    (is : List Step) (hbelow : Always State.step Below (State.start ring writer) is) :
    Exclusive maxReaders (run State.step (State.start ring writer) is) := by
  have hguarded : Guarded State.step (fun t _ => Below t) (State.start ring writer) is :=
    fun ks j hks => hbelow ks ((List.prefix_append ks [j]).trans hks)
  have hkeep : ∀ (t : State T) (i : Step),
      (Owned t ∧ t.ring.readSlots.length = maxReaders) → Below t →
      Owned (t.step i) ∧ (t.step i).ring.readSlots.length = maxReaders := by
    rintro t i ⟨hown, hlength⟩ hbelow
    exact ⟨hown.step hbelow i, (hown.step_effect hbelow i).length_eq.trans hlength⟩
  obtain ⟨hown, hlength⟩ := (always_of_guarded hkeep (owned_start hcreate) hguarded).last
  exact exclusive_of_owned hown hbelow.last hlength

/-- Two readers race for the only slot; a message is published and read. -/
def race : List Step :=
  [.beginConnect 0, .beginConnect 1, .compareExchange 1, .prepare, .commit, .compareExchange 0,
    .beginRead 1 .tryRead, .advance 1, .compareExchange 0]

def oneSlot : Ring Nat := ⟨4, 0, [freeReader], Vector.replicate _ 0, by decide⟩

theorem slots_owned_exclusively_race :
    Exclusive 1 (run State.step (State.start oneSlot ⟨0, false⟩) race) := by
  have hcreate : Ring.create 4 1 0 = .ok (oneSlot, ⟨0, false⟩) := rfl
  apply slots_owned_exclusively hcreate
  unfold race Below
  simp only [always_cons, always_nil]
  decide

end Nnxt.ReaderSlots
