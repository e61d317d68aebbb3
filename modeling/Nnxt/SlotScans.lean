import Nnxt.SlotSteps

/-!
# A scan of the reader slots

What a `connect` finds when only reads and the writer run beside it, and the
ownership of the slots in every state that is reached.
-/

namespace Nnxt.ReaderSlots

set_option autoImplicit false

open Transition

/-- A step that may fall into the scan of `reader`: its own, a read, or the writer's. -/
def Quiet (reader : Nat) : Step → Prop
  | .beginConnect _ => False
  | .compareExchange other => other = reader
  | .drop _ => False
  | _ => True

variable {T : Type}

/-- Where the scan of `reader` is, against the slots that were held when it began. -/
def ScanStatus (held : Nat → Prop) (reader : Nat) (s : State T) : Prop :=
  match s.readers reader with
  | .scanning _ idx =>
    idx ≤ s.ring.readSlots.length ∧ (∀ slot, slot < idx → held slot) ∧
      ∀ slot, s.Held slot ↔ held slot
  | .live slot _ => slot < s.ring.readSlots.length ∧ ¬ held slot
  | .slotsFull => ∀ slot, slot < s.ring.readSlots.length → held slot
  | _ => False

section Quiet
variable {s : State T} {reader other : Nat} {i : Step}

theorem slot_beginRead (s : State T) (reader other : Nat) (kind : ReadKind) :
    ((s.beginRead reader kind).readers other).slot = (s.readers other).slot := by
  unfold State.beginRead
  split
  · rename_i slot hphase
    apply slot_set_of_eq
    rw [hphase]
    rfl
  · rfl

theorem slot_advance (s : State T) (reader other : Nat) :
    ((s.advance reader).readers other).slot = (s.readers other).slot := by
  unfold State.advance
  split
  · rename_i slot kind writeSeq hphase
    have hslot : ∀ op, (Phase.live slot op).slot = (s.readers reader).slot := by
      intro op
      rw [hphase]
      rfl
    dsimp only
    split
    · exact slot_set_of_eq (hslot _) other
    · split
      · exact @slot_set_of_eq T (s.store slot _) reader _ (hslot _) other
      · exact @slot_set_of_eq T (s.store slot _) reader _ (hslot _) other
  · rename_i slot seq hphase
    have hslot : (Phase.live slot .idle).slot = (s.readers reader).slot := by
      rw [hphase]
      rfl
    exact @slot_set_of_eq T (s.store slot _) reader _ hslot other
  · rfl

/-- Beside its own compare-exchanges, no slot changes hands during a scan. -/
theorem slot_of_quiet (hquiet : Quiet reader i) (hi : i ≠ .compareExchange reader) (other : Nat) :
    ((s.step i).readers other).slot = (s.readers other).slot := by
  cases i with
  | beginConnect taker => exact absurd hquiet id
  | compareExchange taker => exact absurd (congrArg Step.compareExchange hquiet) hi
  | beginRead taker kind => exact slot_beginRead s taker other kind
  | advance taker => exact slot_advance s taker other
  | drop taker => exact absurd hquiet id
  | prepare => rfl
  | commit => rfl

theorem beginRead_of_slot_none {kind : ReadKind} (hnone : (s.readers reader).slot = none) :
    s.beginRead reader kind = s := by
  unfold State.beginRead
  split
  · rename_i slot hphase
    rw [hphase] at hnone
    cases hnone
  · rfl

theorem advance_of_slot_none (hnone : (s.readers reader).slot = none) : s.advance reader = s := by
  unfold State.advance
  split
  · rename_i slot kind writeSeq hphase
    rw [hphase] at hnone
    cases hnone
  · rename_i slot seq hphase
    rw [hphase] at hnone
    cases hnone
  · rfl

/-- Nor does the scan move on but by its own compare-exchanges. -/
theorem readers_of_quiet (hown : Owned s) (hbelow : Below s) (hquiet : Quiet reader i)
    (hi : i ≠ .compareExchange reader) (hnone : (s.readers reader).slot = none) :
    (s.step i).readers reader = s.readers reader := by
  by_cases hactor : i.reader = some reader
  · cases i with
    | beginConnect taker => exact absurd hquiet id
    | compareExchange taker => exact absurd (congrArg Step.compareExchange hquiet) hi
    | beginRead taker kind =>
      cases hactor
      exact congrArg (fun t => t.readers reader) (beginRead_of_slot_none hnone)
    | advance taker =>
      cases hactor
      exact congrArg (fun t => t.readers reader) (advance_of_slot_none hnone)
    | drop taker => exact absurd hquiet id
    | prepare => rfl
    | commit => rfl
  · exact (hown.step_effect hbelow i).readers_ne hactor

theorem held_of_quiet (hquiet : Quiet reader i) (hi : i ≠ .compareExchange reader) (slot : Nat) :
    (s.step i).Held slot ↔ s.Held slot :=
  exists_congr fun other => by rw [slot_of_quiet hquiet hi other]

end Quiet

section Scans
variable {s t : State T} {reader : Nat} {i : Step} {held : Nat → Prop} {js : List Step}

theorem held_set_of_eq {phase : Phase} (hslot : phase.slot = (s.readers reader).slot) (slot : Nat) :
    (s.set reader phase).Held slot ↔ s.Held slot :=
  exists_congr fun other => by rw [slot_set_of_eq hslot other]

theorem scanStatus_of_scanning {writeSeq : UInt64} {idx : Nat}
    (hphase : s.readers reader = .scanning writeSeq idx) :
    ScanStatus held reader s ↔ idx ≤ s.ring.readSlots.length ∧ (∀ slot, slot < idx → held slot) ∧
      ∀ slot, s.Held slot ↔ held slot := by
  unfold ScanStatus
  rw [hphase]

/-- One compare-exchange of the scan: a slot that is free was not held, one that is not was. -/
theorem ScanStatus.compareExchange (h : ScanStatus held reader s) (hown : Owned s)
    (hbelow : Below s) : ScanStatus held reader (s.compareExchange reader) := by
  by_cases hscan : ∃ writeSeq idx, s.readers reader = .scanning writeSeq idx
  · obtain ⟨writeSeq, idx, hphase⟩ := hscan
    obtain ⟨_, hpassed, hsame⟩ := (scanStatus_of_scanning hphase).mp h
    rw [compareExchange_of_scanning hphase]
    split
    · rename_i hlt
      split
      · rename_i hfree
        have hnot := (hown.free_iff hbelow hlt).mp hfree
        unfold ScanStatus
        rw [State.set_readers_self, State.set_ring, State.store_ring, State.length_storeReader]
        exact ⟨hlt, fun hheld => hnot ((hsame idx).mpr hheld)⟩
      · rename_i hne
        have hheld := (hsame idx).mp (hown.owner idx hlt hne)
        apply (scanStatus_of_scanning (State.set_readers_self s)).mpr
        refine ⟨hlt, ?_, ?_⟩
        · intro slot hslot
          rcases Nat.lt_succ_iff_lt_or_eq.mp hslot with hbefore | heq
          · exact hpassed slot hbefore
          · exact heq ▸ hheld
        · intro slot
          rw [← hsame slot]
          apply held_set_of_eq
          rw [hphase]
          rfl
    · rename_i hge
      unfold ScanStatus
      rw [State.set_readers_self]
      intro slot hslot
      rw [State.set_ring] at hslot
      exact hpassed slot (by omega)
  · rw [compareExchange_of_returned fun writeSeq idx hphase => hscan ⟨writeSeq, idx, hphase⟩]
    exact h

theorem ScanStatus.step (h : ScanStatus held reader s) (hown : Owned s) (hbelow : Below s)
    (hquiet : Quiet reader i) : ScanStatus held reader (s.step i) := by
  by_cases hi : i = .compareExchange reader
  · rw [hi]
    exact h.compareExchange hown hbelow
  have hlength := (hown.step_effect hbelow i).length_eq
  unfold ScanStatus at h ⊢
  rw [hlength]
  cases hphase : s.readers reader with
  | live slot op =>
    have hslot := @slot_of_quiet T s reader i hquiet hi reader
    rw [hphase] at h hslot
    obtain ⟨op', hlive⟩ := eq_live_of_slot hslot
    rw [hlive]
    exact h
  | scanning writeSeq idx =>
    have hsame := readers_of_quiet hown hbelow hquiet hi (by rw [hphase]; rfl)
    rw [hsame]
    rw [hphase] at h ⊢
    refine ⟨h.1, h.2.1, ?_⟩
    intro slot
    exact (held_of_quiet hquiet hi slot).trans (h.2.2 slot)
  | slotsFull =>
    have hsame := readers_of_quiet hown hbelow hquiet hi (by rw [hphase]; rfl)
    rw [hsame]
    rw [hphase] at h ⊢
    exact h
  | absent =>
    rw [hphase] at h
    exact absurd h id
  | dropped =>
    rw [hphase] at h
    exact absurd h id

/-- A state `s` of the scan that `reader` began in `begun`. -/
structure Scanned (begun : State T) (reader : Nat) (s : State T) : Prop where
  owned : Owned s
  length : s.ring.readSlots.length = begun.ring.readSlots.length
  status : ScanStatus begun.Held reader s

theorem Scanned.always (h : Scanned t reader s) (hquiet : ∀ j ∈ js, Quiet reader j)
    (hbelow : Always State.step Below s js) : Always State.step (Scanned t reader) s js := by
  have hguarded : Guarded State.step (fun t j => Below t ∧ Quiet reader j) s js := by
    intro ks j hks
    refine ⟨hbelow ks ((List.prefix_append ks [j]).trans hks), hquiet j ?_⟩
    exact hks.subset (List.mem_append_right ks (List.mem_singleton.mpr rfl))
  apply always_of_guarded _ h hguarded
  rintro u j ⟨hown, hlength, hstatus⟩ ⟨hbelow, hquiet⟩
  refine ⟨hown.step hbelow j, ?_, hstatus.step hown hbelow hquiet⟩
  exact ((hown.step_effect hbelow j).length_eq).trans hlength

theorem scanning_of_compareExchange {w : UInt64} {idx : Nat}
    (h : (s.compareExchange reader).readers reader = .scanning w idx) :
    ∃ before, s.readers reader = .scanning w before ∧ idx = before + 1 := by
  by_cases hscan : ∃ writeSeq before, s.readers reader = .scanning writeSeq before
  · obtain ⟨writeSeq, before, hphase⟩ := hscan
    rw [compareExchange_of_scanning hphase] at h
    split at h
    · split at h
      · rw [State.set_readers_self] at h
        cases h
      · rw [State.set_readers_self] at h
        cases h
        exact ⟨before, hphase, rfl⟩
    · rw [State.set_readers_self] at h
      cases h
  · rw [compareExchange_of_returned fun w before hphase => hscan ⟨w, before, hphase⟩] at h
    exact absurd ⟨w, idx, h⟩ hscan

/-- The index of a scan that goes on is the number of its compare-exchanges. -/
theorem scanning_idx_eq_count {writeSeq w : UInt64} {idx : Nat}
    (hstart : s.readers reader = .scanning writeSeq 0) (hquiet : ∀ j ∈ js, Quiet reader j)
    (hown : Always State.step Owned s js) (hbelow : Always State.step Below s js)
    (hscan : (run State.step s js).readers reader = .scanning w idx) :
    idx = js.count (.compareExchange reader) := by
  induction js using List.reverseRecOn generalizing w idx with
  | nil =>
    rw [run_nil, hstart] at hscan
    cases hscan
    rfl
  | append_singleton js j ih =>
    have hprefix : js <+: js ++ [j] := List.prefix_append js [j]
    have hquietBefore : ∀ k ∈ js, Quiet reader k :=
      fun k hk => hquiet k (List.mem_append_left _ hk)
    have hquietLast := hquiet j (List.mem_append_right js (List.mem_singleton.mpr rfl))
    have hownBefore : Always State.step Owned s js := fun ks hks => hown ks (hks.trans hprefix)
    have hbelowBefore : Always State.step Below s js := fun ks hks => hbelow ks (hks.trans hprefix)
    rw [run_append, run_cons, run_nil] at hscan
    rw [List.count_append]
    by_cases hj : j = .compareExchange reader
    · subst hj
      obtain ⟨before, hscanBefore, hidx⟩ := scanning_of_compareExchange hscan
      rw [hidx, ih hquietBefore hownBefore hbelowBefore hscanBefore, List.count_singleton_self]
    · have hnone : ((run State.step s js).readers reader).slot = none := by
        rw [← slot_of_quiet hquietLast hj reader, hscan]
        rfl
      rw [readers_of_quiet (hown js hprefix) (hbelow js hprefix) hquietLast hj hnone] at hscan
      rw [ih hquietBefore hownBefore hbelowBefore hscan, List.count_singleton]
      simp [hj]

end Scans

end Nnxt.ReaderSlots
