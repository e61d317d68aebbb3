import Nnxt.SlotOwnership

/-!
# Every step respects the holders

Each atomic access, from a state in which the slots are owned, has one of the
effects that keep them so.
-/

namespace Nnxt.ReaderSlots

set_option autoImplicit false

open FixedWidth Transition

section Steps
variable {T : Type} {s : State T} {reader : Nat}

theorem beginConnect_effect (reader : Nat) :
    Effect s (some reader) (s.beginConnect reader) := by
  unfold State.beginConnect
  cases hphase : s.readers reader with
  | absent =>
    apply Effect.phase
    · rw [hphase]
      rfl
    · exact Nat.le_refl _
  | scanning writeSeq idx => exact .nothing _
  | live slot op => exact .nothing _
  | slotsFull => exact .nothing _
  | dropped => exact .nothing _

theorem Owned.compareExchange_effect (h : Owned s) (reader : Nat) :
    Effect s (some reader) (s.compareExchange reader) := by
  by_cases hscan : ∃ writeSeq idx, s.readers reader = .scanning writeSeq idx
  · obtain ⟨writeSeq, idx, hphase⟩ := hscan
    have hfits := h.fits reader
    rw [hphase] at hfits
    have hnone : (s.readers reader).slot = none := by
      rw [hphase]
      rfl
    rw [compareExchange_of_scanning hphase]
    split
    · rename_i hidx
      split
      · rename_i hfree
        exact .take hnone hidx hfree hfits
      · exact .phase hnone.symm hfits
    · exact .phase hnone.symm trivial
  · rw [compareExchange_of_returned fun writeSeq idx hphase => hscan ⟨writeSeq, idx, hphase⟩]
    exact .nothing _

theorem Owned.beginRead_effect (h : Owned s) (reader : Nat) (kind : ReadKind) :
    Effect s (some reader) (s.beginRead reader kind) := by
  unfold State.beginRead
  split
  · rename_i slot hphase
    have hfits := h.fits reader
    rw [hphase] at hfits
    apply Effect.phase
    · rw [hphase]
      rfl
    · exact ⟨hfits.1, hfits.2.1, hfits.2.1, Nat.le_refl _⟩
  · exact .nothing _

/-- A cursor below the write sequence moves up by one without reaching the mark. -/
theorem toNat_succ {seq bound : UInt64} (h : seq.toNat < bound.toNat) :
    (seq + 1).toNat = seq.toNat + 1 := by
  have hlt := bound.toNat_lt
  rw [UInt64.toNat_add, UInt64.toNat_one]
  omega

theorem fits_storeReader {ring : Ring T} {slot : Nat} {seq : UInt64} {op : ReadOp}
    (hslot : slot < ring.readSlots.length) (hseq : seq.toNat ≤ ring.writeSeq.toNat)
    (hop : match op with
      | .idle => True
      | .loaded _ writeSeq => seq.toNat ≤ writeSeq.toNat ∧ writeSeq.toNat ≤ ring.writeSeq.toNat
      | .skipped next => next.toNat < ring.writeSeq.toNat) :
    PhaseFits (ring.storeReader slot seq) (.live slot op) := by
  have hself := ring.readSeq_storeReader_self hslot seq
  refine ⟨?_, ?_, ?_⟩
  · rw [State.length_storeReader]
    exact hslot
  · rw [hself]
    exact hseq
  · rw [hself]
    exact hop

theorem lt_of_something_new {kind : ReadKind} {writeSeq readSeq : UInt64}
    (hle : readSeq.toNat ≤ writeSeq.toNat) (hnew : kind.nothingNew writeSeq readSeq = false) :
    readSeq.toNat < writeSeq.toNat := by
  cases kind with
  | tryRead =>
    have hne : writeSeq ≠ readSeq := of_decide_eq_false hnew
    rw [Ne, ← UInt64.toNat_inj] at hne
    omega
  | readPass =>
    have hnot : ¬ writeSeq ≤ readSeq := of_decide_eq_false hnew
    rw [UInt64.le_iff_toNat_le] at hnot
    omega

theorem Owned.loaded_effect {slot : Nat} {kind : ReadKind} {writeSeq : UInt64} (h : Owned s)
    (hphase : s.readers reader = .live slot (.loaded kind writeSeq)) :
    Effect s (some reader) (s.advance reader) := by
  have hfits := h.fits reader
  rw [hphase] at hfits
  obtain ⟨hlt, hcursor, hloaded, hle⟩ := hfits
  have hslot : (s.readers reader).slot = some slot := by
    rw [hphase]
    rfl
  rw [advance_of_loaded hphase]
  cases hnew : kind.nothingNew writeSeq (s.ring.readSeq slot) with
  | true => exact .phase hslot.symm ⟨hlt, hcursor, trivial⟩
  | false =>
    have hbehind := lt_of_something_new hloaded hnew
    have hcapacity := s.ring.capacity_pos
    rw [if_neg (by decide)]
    split
    · have hskip : (saturatingSub writeSeq s.ring.capacity).toNat < s.ring.writeSeq.toNat := by
        rw [toNat_saturatingSub]
        omega
      exact .move hslot (fits_storeReader hlt (Nat.le_of_lt hskip) hskip)
    · apply Effect.move hslot
      apply fits_storeReader hlt _ trivial
      rw [toNat_succ hbehind]
      omega

theorem Owned.skipped_effect {slot : Nat} {seq : UInt64} (h : Owned s)
    (hphase : s.readers reader = .live slot (.skipped seq)) :
    Effect s (some reader) (s.advance reader) := by
  have hfits := h.fits reader
  rw [hphase] at hfits
  obtain ⟨hlt, _, hseq⟩ := hfits
  rw [advance_of_skipped hphase]
  apply Effect.move
  · rw [hphase]
    rfl
  · apply fits_storeReader hlt _ trivial
    rw [toNat_succ hseq]
    exact hseq

theorem Owned.advance_effect (h : Owned s) (reader : Nat) :
    Effect s (some reader) (s.advance reader) := by
  cases hphase : s.readers reader with
  | live slot op =>
    cases op with
    | idle =>
      rw [advance_of_idle hphase]
      exact .nothing _
    | loaded kind writeSeq => exact h.loaded_effect hphase
    | skipped seq => exact h.skipped_effect hphase
  | absent | scanning | slotsFull | dropped =>
    unfold State.advance
    rw [hphase]
    exact .nothing _

theorem drop_effect (reader : Nat) : Effect s (some reader) (s.drop reader) := by
  unfold State.drop
  split
  · rename_i slot hphase
    apply Effect.release
    rw [hphase]
    rfl
  · exact .nothing _

theorem Owned.commit_effect (h : Owned s) (hbelow : Below s) :
    Effect s none (s.step .commit) := by
  have hpending := h.pending
  unfold State.step Ring.commit
  cases hhas : s.writer.hasPending with
  | true =>
    have hseq : (s.writer.pendingSeq + 1).toNat = s.ring.writeSeq.toNat + 1 := by
      unfold Below at hbelow
      rw [hpending hhas, UInt64.toNat_add, UInt64.toNat_one]
      omega
    refine .publish rfl (hseq ▸ Nat.le_succ _) ?_
    intro hno
    cases hno
  | false =>
    refine .publish rfl (Nat.le_refl _) ?_
    exact hpending

/-- What any process does in one step. -/
theorem Owned.step_effect (h : Owned s) (hbelow : Below s) (i : Step) :
    Effect s i.reader (s.step i) := by
  cases i with
  | beginConnect reader => exact beginConnect_effect reader
  | compareExchange reader => exact h.compareExchange_effect reader
  | beginRead reader kind => exact h.beginRead_effect reader kind
  | advance reader => exact h.advance_effect reader
  | drop reader => exact drop_effect reader
  | prepare => exact .publish rfl (Nat.le_refl _) fun _ => rfl
  | commit => exact h.commit_effect hbelow

theorem Owned.step (h : Owned s) (hbelow : Below s) (i : Step) : Owned (s.step i) :=
  h.effect hbelow (h.step_effect hbelow i)

theorem owned_start {ring : Ring T} {writer : Writer} {capacity : UInt64} {maxReaders : Nat}
    {zero : T} (hcreate : Ring.create capacity maxReaders zero = .ok (ring, writer)) :
    Owned (State.start ring writer) ∧ ring.readSlots.length = maxReaders := by
  unfold Ring.create at hcreate
  split at hcreate
  · cases hcreate
    refine ⟨⟨fun _ => trivial, ?_, ?_, ?_⟩, List.length_replicate⟩
    · intro reader other slot hslot
      cases hslot
    · intro slot _ hne
      refine absurd ?_ hne
      unfold Ring.readSeq State.start
      dsimp only
      rw [List.getD_eq_getElem?_getD, List.getElem?_replicate]
      split <;> rfl
    · intro hno
      cases hno
  · cases hcreate

end Steps

end Nnxt.ReaderSlots
