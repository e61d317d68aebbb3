import Nnxt.ReaderSlots
import Nnxt.Foundation.Transition

/-!
# A reader slot has one holder

What one atomic step does to the slots, and the invariant it keeps: a cursor is
at most the write sequence, so below `u64::MAX` it is never the mark of a free
slot.
-/

namespace Nnxt.ReaderSlots

set_option autoImplicit false

open FixedWidth Transition

variable {T : Type}

/-- The bound on the sequence numbers. -/
def Below (s : State T) : Prop := s.ring.writeSeq.toNat < 2 ^ 64 - 1

/-- Sequences loaded or stored by a call are not ahead of the write sequence. -/
def PhaseFits (ring : Ring T) : Phase → Prop
  | .scanning writeSeq _ => writeSeq.toNat ≤ ring.writeSeq.toNat
  | .live slot op =>
    slot < ring.readSlots.length ∧ (ring.readSeq slot).toNat ≤ ring.writeSeq.toNat ∧
    match op with
    | .idle => True
    | .loaded _ writeSeq =>
      (ring.readSeq slot).toNat ≤ writeSeq.toNat ∧ writeSeq.toNat ≤ ring.writeSeq.toNat
    | .skipped seq => seq.toNat < ring.writeSeq.toNat
  | _ => True

structure Owned (s : State T) : Prop where
  fits : ∀ reader, PhaseFits s.ring (s.readers reader)
  distinct : ∀ reader other slot, (s.readers reader).slot = some slot →
    (s.readers other).slot = some slot → reader = other
  owner : ∀ slot, slot < s.ring.readSlots.length → s.ring.readSeq slot ≠ freeReader → s.Held slot
  pending : s.writer.hasPending → s.writer.pendingSeq = s.ring.writeSeq

/-- All that a step can do, with the reader that takes it: change a phase but not
the slot, take a free slot, store into the slot held, give it back, or publish. -/
inductive Effect (s : State T) : Option Nat → State T → Prop
  | nothing (actor : Option Nat) : Effect s actor s
  | phase {reader : Nat} {phase : Phase} (hslot : phase.slot = (s.readers reader).slot)
      (hfits : PhaseFits s.ring phase) : Effect s (some reader) (s.set reader phase)
  | take {reader idx : Nat} {writeSeq : UInt64} (hnone : (s.readers reader).slot = none)
      (hidx : idx < s.ring.readSlots.length) (hfree : s.ring.readSeq idx = freeReader)
      (hseq : writeSeq.toNat ≤ s.ring.writeSeq.toNat) :
      Effect s (some reader) ((s.store idx writeSeq).set reader (.live idx .idle))
  | move {reader slot : Nat} {seq : UInt64} {op : ReadOp}
      (hslot : (s.readers reader).slot = some slot)
      (hfits : PhaseFits (s.ring.storeReader slot seq) (.live slot op)) :
      Effect s (some reader) ((s.store slot seq).set reader (.live slot op))
  | release {reader slot : Nat} (hslot : (s.readers reader).slot = some slot) :
      Effect s (some reader) ((s.store slot freeReader).set reader .dropped)
  | publish {ring : Ring T} {writer : Writer} (hslots : ring.readSlots = s.ring.readSlots)
      (hseq : s.ring.writeSeq.toNat ≤ ring.writeSeq.toNat)
      (hpending : writer.hasPending → writer.pendingSeq = ring.writeSeq) :
      Effect s none { s with ring := ring, writer := writer }

section Facts
variable {s : State T} {ring ring' : Ring T} {reader other slot : Nat} {phase : Phase}

theorem eq_live_of_slot (h : phase.slot = some slot) : ∃ op, phase = .live slot op := by
  cases phase with
  | live held op =>
    have hheld : held = slot := Option.some.inj h
    exact ⟨op, by rw [hheld]⟩
  | absent => cases h
  | scanning writeSeq idx => cases h
  | slotsFull => cases h
  | dropped => cases h

/-- A phase speaks of its own slot and of the write sequence, and the latter only grows. -/
theorem PhaseFits.congr (h : PhaseFits ring phase)
    (hlength : ring'.readSlots.length = ring.readSlots.length)
    (hseq : ring.writeSeq.toNat ≤ ring'.writeSeq.toNat)
    (hread : ∀ slot, phase.slot = some slot → ring'.readSeq slot = ring.readSeq slot) :
    PhaseFits ring' phase := by
  cases phase with
  | scanning writeSeq idx => exact Nat.le_trans h hseq
  | live slot op =>
    obtain ⟨hslot, hcursor, hop⟩ := h
    have hsame := hread slot rfl
    refine ⟨hlength ▸ hslot, hsame ▸ hcursor.trans hseq, ?_⟩
    cases op with
    | idle => trivial
    | loaded kind writeSeq => exact ⟨hsame ▸ hop.1, hop.2.trans hseq⟩
    | skipped seq => exact Nat.lt_of_lt_of_le hop hseq
  | absent => trivial
  | slotsFull => trivial
  | dropped => trivial

theorem Owned.slot_lt (h : Owned s) (hslot : (s.readers reader).slot = some slot) :
    slot < s.ring.readSlots.length := by
  obtain ⟨op, hlive⟩ := eq_live_of_slot hslot
  have hfits := h.fits reader
  rw [hlive] at hfits
  exact hfits.1

theorem Owned.cursor_le (h : Owned s) (hslot : (s.readers reader).slot = some slot) :
    (s.ring.readSeq slot).toNat ≤ s.ring.writeSeq.toNat := by
  obtain ⟨op, hlive⟩ := eq_live_of_slot hslot
  have hfits := h.fits reader
  rw [hlive] at hfits
  exact hfits.2.1

theorem ne_freeReader {seq : UInt64} (h : seq.toNat < 2 ^ 64 - 1) : seq ≠ freeReader := by
  intro heq
  rw [heq] at h
  exact absurd h (by decide)

/-- The cursor never equals the mark of a free slot. -/
theorem Owned.held_ne_free (h : Owned s) (hbelow : Below s)
    (hslot : (s.readers reader).slot = some slot) : s.ring.readSeq slot ≠ freeReader :=
  ne_freeReader (Nat.lt_of_le_of_lt (h.cursor_le hslot) hbelow)

theorem Owned.free_iff (h : Owned s) (hbelow : Below s) (hslot : slot < s.ring.readSlots.length) :
    s.ring.readSeq slot = freeReader ↔ ¬ s.Held slot := by
  constructor
  · rintro hfree ⟨reader, hheld⟩
    exact h.held_ne_free hbelow hheld hfree
  · intro hnot
    apply Decidable.of_not_not
    intro hne
    exact hnot (h.owner slot hslot hne)

end Facts

section Effects
variable {s s' : State T} {actor : Option Nat} {reader other slot idx : Nat} {phase : Phase}
  {seq : UInt64} {op : ReadOp}

theorem slot_set_of_eq (hslot : phase.slot = (s.readers reader).slot) (other : Nat) :
    ((s.set reader phase).readers other).slot = (s.readers other).slot := by
  by_cases ho : other = reader
  · rw [ho, State.set_readers_self, hslot]
  · rw [State.set_readers_ne s ho]

theorem Owned.setPhase (h : Owned s) (hslot : phase.slot = (s.readers reader).slot)
    (hfits : PhaseFits s.ring phase) : Owned (s.set reader phase) := by
  have hslots := slot_set_of_eq hslot
  refine ⟨?_, ?_, ?_, h.pending⟩
  · intro other
    by_cases ho : other = reader
    · rw [ho, State.set_readers_self]
      exact hfits
    · rw [State.set_readers_ne s ho]
      exact h.fits other
  · intro first second held hfirst hsecond
    rw [hslots] at hfirst hsecond
    exact h.distinct first second held hfirst hsecond
  · intro held hlt hne
    obtain ⟨holder, hholder⟩ := h.owner held hlt hne
    exact ⟨holder, (hslots holder).trans hholder⟩

/-- The phases of the others still fit where a slot is stored that none of them holds. -/
theorem Owned.fits_store (h : Owned s) (seq : UInt64)
    (hnot : (s.readers other).slot ≠ some slot) :
    PhaseFits (s.ring.storeReader slot seq) (s.readers other) := by
  apply (h.fits other).congr (State.length_storeReader _) (Nat.le_refl _)
  intro held hheld
  apply Ring.readSeq_storeReader_ne
  intro heq
  exact hnot (heq ▸ hheld)

theorem Owned.take (h : Owned s) (hbelow : Below s) (hnone : (s.readers reader).slot = none)
    (hidx : idx < s.ring.readSlots.length) (hfree : s.ring.readSeq idx = freeReader)
    (hseq : seq.toNat ≤ s.ring.writeSeq.toNat) :
    Owned ((s.store idx seq).set reader (.live idx .idle)) := by
  have hnot : ∀ other, (s.readers other).slot ≠ some idx :=
    fun other hother => h.held_ne_free hbelow hother hfree
  have hself : (s.ring.storeReader idx seq).readSeq idx = seq :=
    Ring.readSeq_storeReader_self s.ring hidx seq
  refine ⟨?_, ?_, ?_, h.pending⟩
  · intro other
    by_cases ho : other = reader
    · rw [ho, State.set_readers_self]
      refine ⟨?_, ?_, trivial⟩
      · rw [State.set_ring, State.store_ring, State.length_storeReader]
        exact hidx
      · rw [State.set_ring, State.store_ring, hself]
        exact hseq
    · rw [State.set_readers_ne _ ho]
      exact h.fits_store seq (hnot other)
  · intro first second held hfirst hsecond
    by_cases h1 : first = reader <;> by_cases h2 : second = reader
    · rw [h1, h2]
    · rw [h1, State.set_readers_self] at hfirst
      rw [State.set_readers_ne _ h2] at hsecond
      exact absurd (hsecond.trans hfirst.symm) (hnot second)
    · rw [State.set_readers_ne _ h1] at hfirst
      rw [h2, State.set_readers_self] at hsecond
      exact absurd (hfirst.trans hsecond.symm) (hnot first)
    · rw [State.set_readers_ne _ h1] at hfirst
      rw [State.set_readers_ne _ h2] at hsecond
      exact h.distinct first second held hfirst hsecond
  · intro held hlt hne
    by_cases heq : held = idx
    · refine ⟨reader, ?_⟩
      rw [State.set_readers_self, heq]
      rfl
    · rw [State.set_ring, State.store_ring, Ring.readSeq_storeReader_ne s.ring heq] at hne
      rw [State.set_ring, State.store_ring, State.length_storeReader] at hlt
      obtain ⟨holder, hholder⟩ := h.owner held hlt hne
      have hother : holder ≠ reader := by
        intro hsame
        rw [hsame, hnone] at hholder
        cases hholder
      exact ⟨holder, by rw [State.set_readers_ne _ hother]; exact hholder⟩

/-- Another reader does not hold the slot that `reader` holds. -/
theorem Owned.slot_ne (h : Owned s) (hslot : (s.readers reader).slot = some slot)
    (hne : other ≠ reader) : (s.readers other).slot ≠ some slot :=
  fun hother => hne (h.distinct other reader slot hother hslot)

theorem Owned.move (h : Owned s) (hslot : (s.readers reader).slot = some slot)
    (hfits : PhaseFits (s.ring.storeReader slot seq) (.live slot op)) :
    Owned ((s.store slot seq).set reader (.live slot op)) := by
  have hslots : ∀ other, (((s.store slot seq).set reader (.live slot op)).readers other).slot =
      (s.readers other).slot := slot_set_of_eq hslot.symm
  refine ⟨?_, ?_, ?_, h.pending⟩
  · intro other
    by_cases ho : other = reader
    · rw [ho, State.set_readers_self]
      exact hfits
    · rw [State.set_readers_ne _ ho]
      exact h.fits_store seq (h.slot_ne hslot ho)
  · intro first second held hfirst hsecond
    rw [hslots] at hfirst hsecond
    exact h.distinct first second held hfirst hsecond
  · intro held hlt hne
    by_cases heq : held = slot
    · exact ⟨reader, (hslots reader).trans (heq ▸ hslot)⟩
    · rw [State.set_ring, State.store_ring, Ring.readSeq_storeReader_ne s.ring heq] at hne
      rw [State.set_ring, State.store_ring, State.length_storeReader] at hlt
      obtain ⟨holder, hholder⟩ := h.owner held hlt hne
      exact ⟨holder, (hslots holder).trans hholder⟩

theorem Owned.release (h : Owned s) (hslot : (s.readers reader).slot = some slot) :
    Owned ((s.store slot freeReader).set reader .dropped) := by
  have hgone : ∀ other held, (((s.store slot freeReader).set reader .dropped).readers other).slot =
      some held → other ≠ reader ∧ (s.readers other).slot = some held := by
    intro other held hheld
    by_cases ho : other = reader
    · rw [ho, State.set_readers_self] at hheld
      cases hheld
    · rw [State.set_readers_ne _ ho] at hheld
      exact ⟨ho, hheld⟩
  refine ⟨?_, ?_, ?_, h.pending⟩
  · intro other
    by_cases ho : other = reader
    · rw [ho, State.set_readers_self]
      trivial
    · rw [State.set_readers_ne _ ho]
      exact h.fits_store freeReader (h.slot_ne hslot ho)
  · intro first second held hfirst hsecond
    exact h.distinct first second held (hgone first held hfirst).2 (hgone second held hsecond).2
  · intro held hlt hne
    rw [State.set_ring, State.store_ring] at hlt hne
    rw [State.length_storeReader] at hlt
    have hother : held ≠ slot := by
      intro heq
      rw [heq] at hlt hne
      exact hne (Ring.readSeq_storeReader_self s.ring hlt freeReader)
    rw [Ring.readSeq_storeReader_ne s.ring hother] at hne
    obtain ⟨holder, hholder⟩ := h.owner held hlt hne
    have hnot : holder ≠ reader := by
      intro hsame
      rw [hsame, hslot] at hholder
      exact hother (Option.some.inj hholder).symm
    exact ⟨holder, by rw [State.set_readers_ne _ hnot]; exact hholder⟩

theorem Owned.publish {ring : Ring T} {writer : Writer} (h : Owned s)
    (hslots : ring.readSlots = s.ring.readSlots)
    (hseq : s.ring.writeSeq.toNat ≤ ring.writeSeq.toNat)
    (hpending : writer.hasPending → writer.pendingSeq = ring.writeSeq) :
    Owned { s with ring := ring, writer := writer } := by
  have hread : ∀ slot, ring.readSeq slot = s.ring.readSeq slot := by
    intro slot
    rw [Ring.readSeq, Ring.readSeq, hslots]
  refine ⟨?_, h.distinct, ?_, hpending⟩
  · intro reader
    exact (h.fits reader).congr (congrArg List.length hslots) hseq fun slot _ => hread slot
  · intro slot hlt hne
    rw [hslots] at hlt
    rw [hread] at hne
    exact h.owner slot hlt hne

theorem Effect.length_eq (he : Effect s actor s') :
    s'.ring.readSlots.length = s.ring.readSlots.length := by
  cases he with
  | nothing => rfl
  | phase => rfl
  | take => exact State.length_storeReader _
  | move => exact State.length_storeReader _
  | release => exact State.length_storeReader _
  | publish hslots => exact congrArg List.length hslots

theorem Effect.readers_ne (he : Effect s actor s') (hactor : actor ≠ some other) :
    s'.readers other = s.readers other := by
  have hne : ∀ taker, actor = some taker → other ≠ taker := by
    intro taker htaker heq
    exact hactor (heq ▸ htaker)
  cases he with
  | nothing => rfl
  | phase => exact State.set_readers_ne _ (hne _ rfl)
  | take => exact State.set_readers_ne _ (hne _ rfl)
  | move => exact State.set_readers_ne _ (hne _ rfl)
  | release => exact State.set_readers_ne _ (hne _ rfl)
  | publish => rfl

theorem Owned.effect (h : Owned s) (hbelow : Below s) (he : Effect s actor s') : Owned s' := by
  cases he with
  | nothing => exact h
  | phase hslot hfits => exact h.setPhase hslot hfits
  | take hnone hidx hfree hseq => exact h.take hbelow hnone hidx hfree hseq
  | move hslot hfits => exact h.move hslot hfits
  | release hslot => exact h.release hslot
  | publish hslots hseq hpending => exact h.publish hslots hseq hpending

/-- Only its holder changes a held slot. -/
theorem Owned.unchanged (h : Owned s) (hbelow : Below s) (he : Effect s actor s')
    (hslot : (s.readers reader).slot = some slot) (hactor : actor ≠ some reader) :
    s'.ring.readSeq slot = s.ring.readSeq slot := by
  have hne : ∀ other, actor = some other → reader ≠ other := by
    intro other hother heq
    exact hactor (heq ▸ hother)
  have hheld : ∀ other held, actor = some other → (s.readers other).slot = some held →
      slot ≠ held := by
    intro other held hother hheld heq
    exact h.slot_ne hheld (hne other hother) (heq ▸ hslot)
  cases he with
  | nothing => rfl
  | phase => rfl
  | @take other idx writeSeq hnone hidx hfree hseq =>
    apply Ring.readSeq_storeReader_ne s.ring
    intro heq
    exact h.held_ne_free hbelow hslot (heq ▸ hfree)
  | move hother => exact Ring.readSeq_storeReader_ne s.ring (hheld _ _ rfl hother) _
  | release hother => exact Ring.readSeq_storeReader_ne s.ring (hheld _ _ rfl hother) _
  | publish hslots => rw [Ring.readSeq, Ring.readSeq, hslots]

end Effects

end Nnxt.ReaderSlots
