import Nnxt.RingSystem

/-!
# The readers of the ring

What connecting, dropping and reading do to the cursors. The three reads are
written separately in the source; each is brought to one of two outcomes, so
that what follows holds of all three at once.
-/

namespace Nnxt

set_option autoImplicit false

namespace RingSystem
variable {T : Type}

section Reader
variable {s : RingSystem T} {reader slot : Nat}

theorem withReader_readers {ring : Ring T} {taken : Option Nat} {q i : Nat} :
    (s.withReader ring reader taken).readers q = some i ↔
      (q = reader ∧ taken = some i) ∨ (q ≠ reader ∧ s.readers q = some i) := by
  unfold withReader
  by_cases hq : q = reader
  · simp [hq]
  · simp [hq]

theorem Stored.readerMoved (h : s.Stored) (seq : UInt64) (reader : Nat) (taken : Option Nat) :
    (s.withReader (s.ring.storeReader slot seq) reader taken).Stored :=
  ⟨h.few, h.writeSeq, h.pending, h.fills_le, h.content, h.handed_lt⟩

theorem Stored.handedOut (h : s.Stored) {seq : UInt64} (hseq : seq.toNat < s.log.length) :
    (s.received reader (s.ring.storeReader slot (seq + 1), some seq)).Stored := by
  refine ⟨h.few, h.writeSeq, h.pending, h.fills_le, h.content, ?_⟩
  intro d hd
  rcases List.mem_append.mp hd with hd | hd
  · exact h.handed_lt d hd
  · rw [List.mem_singleton.mp hd]
    exact hseq

/-- A slot that holds the free mark belongs to nobody, unless the writer
itself has reached that sequence number. -/
theorem Inv.writeSeq_of_shared (h : s.Inv) (hr : s.readers reader = some slot)
    (hfree : s.ring.readSeq slot = freeReader) : s.ring.writeSeq = freeReader := by
  have hle := h.cursors.cursor_le reader slot hr
  have hfew := h.stored.few
  rw [hfree] at hle
  apply UInt64.toNat_inj.mp
  have hmax : freeReader.toNat = 2 ^ 64 - 1 := rfl
  rw [h.stored.writeSeq]
  omega

/-- Taking a free slot moves no cursor: whoever already holds it stands at the
free mark, and so does the writer. -/
theorem Inv.readSeq_attach (h : s.Inv) (hlt : slot < s.ring.readSlots.length)
    (hfree : s.ring.readSeq slot = freeReader) {q i : Nat} (hq : s.readers q = some i) :
    (s.ring.storeReader slot s.ring.writeSeq).readSeq i = s.ring.readSeq i := by
  by_cases hi : i = slot
  · rw [hi, s.ring.readSeq_storeReader_self hlt, hfree]
    exact h.writeSeq_of_shared (hi ▸ hq) hfree
  · exact s.ring.readSeq_storeReader_ne hi _

/-- Giving a slot up moves no other cursor: whoever still holds it already
stood at the free mark. -/
theorem Inv.readSeq_detach (h : s.Inv) (hr : s.readers reader = some slot) {q i : Nat}
    (hne : q ≠ reader) (hq : s.readers q = some i) :
    (s.ring.drop slot).readSeq i = s.ring.readSeq i := by
  by_cases hi : i = slot
  · rw [hi] at hq ⊢
    rw [Ring.drop, s.ring.readSeq_storeReader_self (h.cursors.slot_lt reader slot hr),
      h.cursors.exclusive q reader slot hq hr hne]
  · exact s.ring.readSeq_storeReader_ne hi _

theorem Inv.attach (h : s.Inv) (reader : Nat) (hlt : slot < s.ring.readSlots.length)
    (hfree : s.ring.readSeq slot = freeReader) :
    (s.withReader (s.ring.storeReader slot s.ring.writeSeq) reader (some slot)).Inv := by
  have hself : (s.ring.storeReader slot s.ring.writeSeq).readSeq slot = s.ring.writeSeq :=
    s.ring.readSeq_storeReader_self hlt _
  refine ⟨h.stored.readerMoved _ _ _, ?_, ?_, ?_⟩
  · intro q i hq
    simp only [withReader, Ring.storeReader, List.length_set]
    rcases withReader_readers.mp hq with ⟨_, hi⟩ | ⟨_, hq⟩
    · exact Option.some.inj hi ▸ hlt
    · exact h.cursors.slot_lt q i hq
  · intro q i hq
    simp only [withReader]
    rcases withReader_readers.mp hq with ⟨_, hi⟩ | ⟨_, hq⟩
    · obtain rfl : slot = i := Option.some.inj hi
      rw [hself, h.stored.writeSeq]
    · rw [h.readSeq_attach hlt hfree hq]
      exact h.cursors.cursor_le q i hq
  · intro q q' i hq hq' hne
    simp only [withReader]
    rcases withReader_readers.mp hq with ⟨rfl, hi⟩ | ⟨_, hq⟩
    · rcases withReader_readers.mp hq' with ⟨rfl, _⟩ | ⟨_, hq'⟩
      · exact absurd rfl hne
      · obtain rfl : slot = i := Option.some.inj hi
        rw [h.readSeq_attach hlt hfree hq', hfree]
    · rcases withReader_readers.mp hq' with ⟨_, hi⟩ | ⟨_, hq'⟩
      · obtain rfl : slot = i := Option.some.inj hi
        rw [h.readSeq_attach hlt hfree hq, hfree]
      · rw [h.readSeq_attach hlt hfree hq]
        exact h.cursors.exclusive q q' i hq hq' hne

theorem Inv.connect (h : s.Inv) (reader : Nat) : (s.connect reader).Inv := by
  unfold RingSystem.connect
  split
  · rename_i ring slot _ hok
    obtain ⟨hlt, hfree, rfl⟩ := s.ring.connect_ok hok
    exact h.attach reader hlt hfree
  · exact h

theorem Inv.detach (h : s.Inv) (hr : s.readers reader = some slot) :
    (s.withReader (s.ring.drop slot) reader none).Inv := by
  have hold : ∀ q i, (s.withReader (s.ring.drop slot) reader none).readers q = some i →
      q ≠ reader ∧ s.readers q = some i := by
    intro q i hq
    rcases withReader_readers.mp hq with ⟨_, hi⟩ | hq
    · cases hi
    · exact hq
  refine ⟨h.stored.readerMoved _ _ _, ?_, ?_, ?_⟩
  · intro q i hq
    simp only [withReader, Ring.drop, Ring.storeReader, List.length_set]
    exact h.cursors.slot_lt q i (hold q i hq).2
  · intro q i hq
    obtain ⟨hne, hq⟩ := hold q i hq
    simp only [withReader, h.readSeq_detach hr hne hq]
    exact h.cursors.cursor_le q i hq
  · intro q q' i hq hq' hne
    obtain ⟨hq₁, hq⟩ := hold q i hq
    simp only [withReader, h.readSeq_detach hr hq₁ hq]
    exact h.cursors.exclusive q q' i hq (hold q' i hq').2 hne

theorem Inv.slot_unshared (h : s.Inv) (hr : s.readers reader = some slot)
    (hbehind : s.ring.readSeq slot < s.ring.writeSeq) {other : Nat} (hne : other ≠ reader) :
    s.readers other ≠ some slot := by
  intro hother
  -- a shared slot holds the free mark, and nothing is ahead of that
  have hfree := h.cursors.exclusive other reader slot hother hr hne
  rw [hfree, UInt64.lt_iff_toNat_lt] at hbehind
  have hmax : freeReader.toNat = 2 ^ 64 - 1 := rfl
  have := s.ring.writeSeq.toNat_lt
  omega

theorem Inv.served_lt (h : s.Inv) (hr : s.readers reader = some slot)
    (hbehind : s.ring.readSeq slot < s.ring.writeSeq) :
    (s.ring.served slot).toNat < s.log.length := by
  have hle := h.cursors.cursor_le reader slot hr
  have hcap := s.ring.capacity_pos
  rw [UInt64.lt_iff_toNat_lt] at hbehind
  have hseq := h.stored.writeSeq
  rw [Ring.toNat_served (by omega)]
  omega

theorem Inv.toNat_served_succ (h : s.Inv) (hr : s.readers reader = some slot)
    (hbehind : s.ring.readSeq slot < s.ring.writeSeq) :
    (s.ring.served slot + 1).toNat = (s.ring.served slot).toNat + 1 := by
  have hlt := h.served_lt hr hbehind
  have hfew := h.stored.few
  rw [UInt64.toNat_add, UInt64.toNat_one]
  exact Nat.mod_eq_of_lt (by omega)

def advance (s : RingSystem T) (reader slot : Nat) : RingSystem T :=
  s.received reader (s.ring.storeReader slot (s.ring.served slot + 1), some (s.ring.served slot))

theorem Inv.readSeq_advance (h : s.Inv) (hr : s.readers reader = some slot)
    (hbehind : s.ring.readSeq slot < s.ring.writeSeq) {q i : Nat} (hne : q ≠ reader)
    (hq : s.readers q = some i) :
    (s.ring.storeReader slot (s.ring.served slot + 1)).readSeq i = s.ring.readSeq i := by
  apply s.ring.readSeq_storeReader_ne
  intro hi
  exact h.slot_unshared hr hbehind hne (hi ▸ hq)

theorem Inv.advance (h : s.Inv) (hr : s.readers reader = some slot)
    (hbehind : s.ring.readSeq slot < s.ring.writeSeq) : (s.advance reader slot).Inv := by
  have hlt := h.cursors.slot_lt reader slot hr
  have hserved := h.served_lt hr hbehind
  have hself : (s.ring.storeReader slot (s.ring.served slot + 1)).readSeq slot =
      s.ring.served slot + 1 := s.ring.readSeq_storeReader_self hlt _
  refine ⟨h.stored.handedOut hserved, ?_, ?_, ?_⟩
  · intro q i hq
    simp only [RingSystem.advance, received, Ring.storeReader, List.length_set]
    exact h.cursors.slot_lt q i hq
  · intro q i hq
    simp only [RingSystem.advance, received]
    by_cases heq : q = reader
    · rw [heq] at hq
      obtain rfl : slot = i := Option.some.inj (hr.symm.trans hq)
      rw [hself, h.toNat_served_succ hr hbehind]
      exact hserved
    · rw [h.readSeq_advance hr hbehind heq hq]
      exact h.cursors.cursor_le q i hq
  · intro q q' i hq hq' hne
    simp only [RingSystem.advance, received]
    by_cases heq : q = reader
    · rw [heq] at hq hne
      obtain rfl : slot = i := Option.some.inj (hr.symm.trans hq)
      exact absurd hq' (h.slot_unshared hr hbehind (Ne.symm hne))
    · rw [h.readSeq_advance hr hbehind heq hq]
      exact h.cursors.exclusive q q' i hq hq' hne

theorem cursor_of_none (hr : s.readers reader = none) : s.cursor reader = none := by
  rw [cursor, hr, Option.map_none]

theorem cursor_of_some (hr : s.readers reader = some slot) :
    s.cursor reader = some (s.ring.readSeq slot).toNat := by
  rw [cursor, hr, Option.map_some]

theorem Inv.cursor_attach (h : s.Inv) (reader : Nat) (hlt : slot < s.ring.readSlots.length)
    (hfree : s.ring.readSeq slot = freeReader) :
    (s.withReader (s.ring.storeReader slot s.ring.writeSeq) reader (some slot)).cursor =
      Function.update s.cursor reader (some s.log.length) := by
  funext q
  simp only [cursor, withReader]
  by_cases heq : q = reader
  · rw [heq, Function.update_self, Function.update_self, Option.map_some,
      s.ring.readSeq_storeReader_self hlt, h.stored.writeSeq]
  · rw [Function.update_of_ne heq, Function.update_of_ne heq]
    cases hq : s.readers q with
    | none => exact (cursor_of_none hq).symm
    | some i => rw [cursor_of_some hq, Option.map_some, h.readSeq_attach hlt hfree hq]

theorem Inv.cursor_detach (h : s.Inv) (hr : s.readers reader = some slot) :
    (s.withReader (s.ring.drop slot) reader none).cursor =
      Function.update s.cursor reader none := by
  funext q
  simp only [cursor, withReader]
  by_cases heq : q = reader
  · rw [heq, Function.update_self, Function.update_self, Option.map_none]
  · rw [Function.update_of_ne heq, Function.update_of_ne heq]
    cases hq : s.readers q with
    | none => exact (cursor_of_none hq).symm
    | some i => rw [cursor_of_some hq, Option.map_some, h.readSeq_detach hr heq hq]

theorem Inv.cursor_advance (h : s.Inv) (hr : s.readers reader = some slot)
    (hbehind : s.ring.readSeq slot < s.ring.writeSeq) :
    (s.advance reader slot).cursor =
      Function.update s.cursor reader (some ((s.ring.served slot).toNat + 1)) := by
  funext q
  simp only [cursor, RingSystem.advance, received]
  by_cases heq : q = reader
  · rw [heq, hr, Function.update_self, Option.map_some,
      s.ring.readSeq_storeReader_self (h.cursors.slot_lt reader slot hr),
      h.toNat_served_succ hr hbehind]
  · rw [Function.update_of_ne heq]
    cases hq : s.readers q with
    | none => exact (cursor_of_none hq).symm
    | some i => rw [cursor_of_some hq, Option.map_some, h.readSeq_advance hr hbehind heq hq]

/-- What the three reads have in common: nothing for a reader that has caught
up, one entry for a reader that is behind. -/
inductive ReadOutcome (s : RingSystem T) (reader : Nat) (s' : RingSystem T) : Prop where
  | nothing (hs : s' = s)
      (hidle : ∀ slot, s.readers reader = some slot → s.ring.readSeq slot = s.ring.writeSeq)
  | entry (slot : Nat) (hr : s.readers reader = some slot)
      (hbehind : s.ring.readSeq slot < s.ring.writeSeq) (hs : s' = s.advance reader slot)

theorem Inv.caughtUp_or_behind (h : s.Inv) (hr : s.readers reader = some slot) :
    s.ring.readSeq slot = s.ring.writeSeq ∨ s.ring.readSeq slot < s.ring.writeSeq := by
  have hle := h.cursors.cursor_le reader slot hr
  rw [← h.stored.writeSeq] at hle
  rcases Nat.lt_or_eq_of_le hle with hlt | heq
  · exact Or.inr (UInt64.lt_iff_toNat_lt.mpr hlt)
  · exact Or.inl (UInt64.toNat_inj.mp heq)

theorem ReadOutcome.of_none {s' : RingSystem T} (hr : s.readers reader = none) (hs : s' = s) :
    ReadOutcome s reader s' := by
  refine .nothing hs ?_
  intro slot hslot
  rw [hr] at hslot
  cases hslot

theorem ReadOutcome.of_caughtUp {s' : RingSystem T} (hr : s.readers reader = some slot)
    (hc : s.ring.readSeq slot = s.ring.writeSeq) (hs : s' = s) : ReadOutcome s reader s' := by
  refine .nothing hs ?_
  intro slot' hslot
  rw [hr] at hslot
  cases hslot
  exact hc

theorem Inv.tryRead_outcome (h : s.Inv) (reader : Nat) :
    ReadOutcome s reader (s.step (.tryRead reader)) := by
  cases hr : s.readers reader with
  | none => exact .of_none hr (by simp only [step, hr])
  | some slot =>
    rcases h.caughtUp_or_behind hr with hc | hb
    · exact .of_caughtUp hr hc (by simp only [step, hr, Ring.tryRead_caughtUp hc, received])
    · exact .entry slot hr hb (by simp only [step, hr, Ring.tryRead_behind hb, RingSystem.advance])

theorem Inv.read_outcome (h : s.Inv) (reader passes : Nat) :
    ReadOutcome s reader (s.step (.read reader (passes + 1))) := by
  cases hr : s.readers reader with
  | none => exact .of_none hr (by simp only [step, hr])
  | some slot =>
    rcases h.caughtUp_or_behind hr with hc | hb
    · exact .of_caughtUp hr hc (by simp only [step, hr, Ring.read_caughtUp hc])
    · exact .entry slot hr hb (by simp only [step, hr, Ring.read_behind hb, RingSystem.advance])

theorem Inv.readTimeout_outcome (h : s.Inv) (reader timeout elapsed : Nat) (later : List Nat) :
    ReadOutcome s reader (s.step (.readTimeout reader timeout (elapsed :: later))) := by
  cases hr : s.readers reader with
  | none => exact .of_none hr (by simp only [step, hr])
  | some slot =>
    rcases h.caughtUp_or_behind hr with hc | hb
    · refine .of_caughtUp hr hc ?_
      simp only [step, hr, Ring.readTimeout_caughtUp hc]
      by_cases htime : ∃ e ∈ elapsed :: later, timeout ≤ e
      · rw [if_pos htime]
        rfl
      · rw [if_neg htime]
    · exact .entry slot hr hb
        (by simp only [step, hr, Ring.readTimeout_behind hb, RingSystem.advance])

theorem step_read_zero (s : RingSystem T) (reader : Nat) : s.step (.read reader 0) = s := by
  cases hr : s.readers reader with
  | none => simp only [step, hr]
  | some slot => simp only [step, hr, Ring.read]

theorem step_readTimeout_nil (s : RingSystem T) (reader timeout : Nat) :
    s.step (.readTimeout reader timeout []) = s := by
  cases hr : s.readers reader with
  | none => simp only [step, hr]
  | some slot => simp only [step, hr, Ring.readTimeout]

theorem Inv.outcome (h : s.Inv) {s' : RingSystem T} (ho : ReadOutcome s reader s') : s'.Inv := by
  cases ho with
  | nothing hs => exact hs ▸ h
  | entry slot hr hb hs => exact hs ▸ h.advance hr hb

end Reader

end RingSystem

end Nnxt
