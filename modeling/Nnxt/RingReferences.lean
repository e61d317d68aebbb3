import Nnxt.RingRuns

/-!
# References into the ring

A read hands out a reference and the caller follows it later, any number of
times; the raw pointer of `Event::Data` is followed in the event handlers. The
writer may be anywhere in the meantime.
-/

namespace Nnxt.RingReferences

set_option autoImplicit false

open RingSystem

variable {T : Type}

/-- `deref j` follows the reference handed out by the `j`-th successful read. -/
inductive Step (T : Type) where
  | ring (i : RingStep T)
  | deref (j : Nat)

def step (s : RingSystem T) : Step T → RingSystem T
  | .ring i => s.step i
  | .deref _ => s

/-- The caller obtains the value that was committed at the position of the reference. -/
def ObtainsCommitted (s : RingSystem T) : Step T → Prop
  | .ring _ => True
  | .deref j => ∀ d ∈ s.handed[j]?, s.log[d.seq.toNat]? = some (s.ring.load d.seq)

/-- The writer has not yet stored a later message into the slot. -/
def BeforeRefill (s : RingSystem T) : Step T → Prop
  | .ring _ => True
  | .deref j => ∀ d ∈ s.handed[j]?, ¬ s.Refilled d.seq.toNat

def Stamped (stamp : T → Nat) (s : RingSystem T) : Step T → Prop
  | .ring (.fill value) => s.writer.hasPending = true → stamp value = s.writer.pendingSeq.toNat
  | .ring (.write value) => stamp value = s.ring.writeSeq.toNat
  | _ => True

instance (s : RingSystem T) : (i : Step T) → Decidable (BeforeRefill s i)
  | .ring _ => .isTrue trivial
  | .deref j => inferInstanceAs (Decidable (∀ d ∈ s.handed[j]?, _))

instance [DecidableEq T] (s : RingSystem T) : (i : Step T) → Decidable (ObtainsCommitted s i)
  | .ring _ => .isTrue trivial
  | .deref j => inferInstanceAs (Decidable (∀ d ∈ s.handed[j]?, _))

def ringStep? : Step T → Option (RingStep T)
  | .ring i => some i
  | .deref _ => none

section Runs
variable {s : RingSystem T}

theorem run_eq (s : RingSystem T) (is : List (Step T)) :
    Transition.run step s is = Transition.run RingSystem.step s (is.filterMap ringStep?) := by
  induction is generalizing s with
  | nil => rfl
  | cons i is ih =>
    cases i with
    | ring i => exact ih (s.step i)
    | deref j => exact ih s

theorem inv_of_prefix (h : s.Inv) {js is : List (Step T)} (hjs : js <+: is)
    (hfew : (Transition.run step s is).log.length < 2 ^ 64) : (Transition.run step s js).Inv := by
  rw [run_eq] at hfew ⊢
  exact h.run hfew _ (hjs.filterMap ringStep?)

theorem obtains_of_beforeRefill (h : s.Inv) {i : Step T} (hg : BeforeRefill s i) :
    ObtainsCommitted s i := by
  cases i with
  | ring i => trivial
  | deref j =>
    intro d hd
    have hlt := h.stored.handed_lt d (List.mem_of_getElem? hd)
    exact h.stored.content d.seq hlt (hg d hd)

end Runs

section Stamps
variable {stamp : T → Nat} {s : RingSystem T}

/-- No slot holds a value from beyond the position being written, the log holds
none from beyond its own position, and a refilled slot holds a later one. -/
structure StampInv (stamp : T → Nat) (s : RingSystem T) : Prop where
  committed : ∀ k v, s.log[k]? = some v → stamp v ≤ k
  slots : ∀ k, stamp (s.ring.load k) ≤ s.log.length
  refilled : ∀ k : UInt64, s.Refilled k.toNat → k.toNat < stamp (s.ring.load k)

theorem StampInv.fill (h : StampInv stamp s) (hinv : s.Inv) {value : T}
    (hg : Stamped stamp s (.ring (.fill value))) : StampInv stamp (s.fill value) := by
  by_cases hp : s.writer.hasPending = true
  · have hseq : s.writer.pendingSeq.toNat = s.log.length := by
      rw [hinv.stored.pending hp, hinv.stored.writeSeq]
    have hstamp : stamp value = s.log.length := (hg hp).trans hseq
    rw [fill_of_pending hp]
    refine ⟨h.committed, ?_, ?_⟩
    · intro k
      simp only [Ring.load_store]
      split
      · exact Nat.le_of_eq hstamp
      · exact h.slots k
    · -- the value stored last stands for the position being written, the latest of all
      rintro k ⟨m, hm, hlt, hmod⟩
      simp only [Ring.load_store]
      rcases List.mem_append.mp hm with hm | hm
      · split
        · have hle : m ≤ s.log.length := by
            rcases hinv.stored.fills_le m hm with hle | ⟨heq, _⟩
            · exact Nat.le_of_lt hle
            · exact Nat.le_of_eq heq
          omega
        · exact h.refilled k ⟨m, hm, hlt, hmod⟩
      · rw [List.mem_singleton.mp hm] at hlt hmod
        split
        · rw [hstamp, ← hseq]
          exact hlt
        · rename_i hother
          exact absurd hmod hother
  · rw [fill_of_not_pending hp]
    exact h

theorem StampInv.commit (h : StampInv stamp s) (hinv : s.Inv) : StampInv stamp s.commit := by
  by_cases hp : s.writer.hasPending = true
  · have hseq : s.writer.pendingSeq.toNat = s.log.length := by
      rw [hinv.stored.pending hp, hinv.stored.writeSeq]
    rw [commit_of_pending hp]
    refine ⟨?_, ?_, h.refilled⟩
    · intro k v hv
      rcases Nat.lt_or_ge k s.log.length with hlt | hge
      · rw [List.getElem?_append_left hlt] at hv
        exact h.committed k v hv
      · rw [List.getElem?_append_right hge] at hv
        rw [List.mem_singleton.mp (List.mem_of_getElem? hv)]
        exact Nat.le_trans (h.slots _) hge
    · intro k
      have := h.slots k
      simp only [List.length_append, List.length_singleton]
      exact Nat.le_succ_of_le this
  · rw [commit_of_not_pending hp]
    exact h

structure SameStore (s s' : RingSystem T) : Prop where
  log : s'.log = s.log
  fills : s'.fills = s.fills
  capacity : s'.ring.capacity = s.ring.capacity
  load : ∀ k, s'.ring.load k = s.ring.load k

theorem StampInv.sameStore {s' : RingSystem T} (h : StampInv stamp s) (hs : SameStore s s') :
    StampInv stamp s' := by
  refine ⟨?_, ?_, ?_⟩
  · rw [hs.log]
    exact h.committed
  · intro k
    rw [hs.load, hs.log]
    exact h.slots k
  · intro k hk
    rw [Refilled, hs.fills, hs.capacity] at hk
    rw [hs.load]
    exact h.refilled k hk

theorem sameStore_outcome {reader : Nat} {s' : RingSystem T} (ho : ReadOutcome s reader s') :
    SameStore s s' := by
  cases ho with
  | nothing hs =>
    rw [hs]
    exact ⟨rfl, rfl, rfl, fun _ => rfl⟩
  | entry slot hr hb hs =>
    rw [hs]
    exact ⟨rfl, rfl, rfl, fun _ => rfl⟩

theorem sameStore_connect (s : RingSystem T) (reader : Nat) : SameStore s (s.connect reader) := by
  unfold connect
  split
  · rename_i hok
    obtain ⟨_, _, rfl⟩ := s.ring.connect_ok hok
    exact ⟨rfl, rfl, rfl, fun _ => rfl⟩
  · exact ⟨rfl, rfl, rfl, fun _ => rfl⟩

theorem sameStore_drop (s : RingSystem T) (reader : Nat) :
    SameStore s (s.step (.drop reader)) := by
  simp only [RingSystem.step]
  split
  · exact ⟨rfl, rfl, rfl, fun _ => rfl⟩
  · exact ⟨rfl, rfl, rfl, fun _ => rfl⟩

theorem StampInv.step (h : StampInv stamp s) (hinv : s.Inv) {i : Step T} (hg : Stamped stamp s i) :
    StampInv stamp (step s i) := by
  cases i with
  | deref j => exact h
  | ring i =>
    cases i with
    | prepare => exact h.sameStore ⟨rfl, rfl, rfl, fun _ => rfl⟩
    | fill value => exact h.fill hinv hg
    | commit => exact h.commit hinv
    | write value =>
      have hprepared : StampInv stamp s.prepare := h.sameStore ⟨rfl, rfl, rfl, fun _ => rfl⟩
      have hfilled : StampInv stamp (s.prepare.fill value) :=
        hprepared.fill hinv.prepare fun _ => hg
      simp only [RingReferences.step, RingSystem.step, write_eq]
      exact hfilled.commit (hinv.prepare.fill value)
    | connect reader => exact h.sameStore (sameStore_connect s reader)
    | tryRead reader => exact h.sameStore (sameStore_outcome (hinv.tryRead_outcome reader))
    | read reader passes =>
      cases passes with
      | zero =>
        simp only [RingReferences.step, step_read_zero]
        exact h
      | succ passes => exact h.sameStore (sameStore_outcome (hinv.read_outcome reader passes))
    | readTimeout reader timeout elapsed =>
      cases elapsed with
      | nil =>
        simp only [RingReferences.step, step_readTimeout_nil]
        exact h
      | cons e later =>
        exact h.sameStore (sameStore_outcome (hinv.readTimeout_outcome reader timeout e later))
    | drop reader => exact h.sameStore (sameStore_drop s reader)

theorem beforeRefill_of_obtains (h : StampInv stamp s) {i : Step T} (hg : ObtainsCommitted s i) :
    BeforeRefill s i := by
  cases i with
  | ring i => trivial
  | deref j =>
    intro d hd hrefilled
    -- what the slot holds is stamped for later than anything committed there
    exact Nat.not_le_of_lt (h.refilled d.seq hrefilled) (h.committed _ _ (hg d hd))

theorem stampInv_start {capacity : UInt64} {maxReaders : Nat} {zero : T} {ring : Ring T}
    {writer : Writer} (hcreate : Ring.create capacity maxReaders zero = .ok (ring, writer))
    (hzero : stamp zero = 0) : StampInv stamp (start ring writer) := by
  unfold Ring.create at hcreate
  split at hcreate
  · cases hcreate
    refine ⟨?_, ?_, ?_⟩
    · intro k v hv
      cases hv
    · intro k
      have hget : ∀ i : Fin capacity.toNat, (Vector.replicate capacity.toNat zero).get i = zero :=
        fun i => Vector.getElem_replicate i.isLt
      simp only [start, Ring.load, hget, hzero, Nat.zero_le]
    · rintro k ⟨m, hm, _⟩
      cases hm
  · cases hcreate

end Stamps

/-- Every value obtained is the committed one if each reference is followed
before its slot is filled again; with values that tell where they were stored,
only if. -/
theorem obtains_iff_before_refill {capacity : UInt64} {maxReaders : Nat} {zero : T}
    {ring : Ring T} {writer : Writer} {is : List (Step T)}
    (hcreate : Ring.create capacity maxReaders zero = .ok (ring, writer))
    (hfew : (Transition.run step (start ring writer) is).log.length < 2 ^ 64) :
    (Transition.Guarded step BeforeRefill (start ring writer) is →
      Transition.Guarded step ObtainsCommitted (start ring writer) is) ∧
    ∀ stamp : T → Nat, stamp zero = 0 →
      Transition.Guarded step (Stamped stamp) (start ring writer) is →
      (Transition.Guarded step ObtainsCommitted (start ring writer) is ↔
        Transition.Guarded step BeforeRefill (start ring writer) is) := by
  have hinv : ∀ js, js <+: is → (Transition.run step (start ring writer) js).Inv :=
    fun js hjs => inv_of_prefix (inv_start hcreate) hjs hfew
  have hsound : Transition.Guarded step BeforeRefill (start ring writer) is →
      Transition.Guarded step ObtainsCommitted (start ring writer) is := by
    intro hg js i hjs
    exact obtains_of_beforeRefill (hinv js ((List.prefix_append js [i]).trans hjs)) (hg js i hjs)
  refine ⟨hsound, ?_⟩
  intro stamp hzero hstamped
  refine ⟨?_, hsound⟩
  have hstamps : ∀ js, js <+: is →
      StampInv stamp (Transition.run step (start ring writer) js) := by
    intro js
    induction js using List.reverseRecOn with
    | nil =>
      intro _
      exact stampInv_start hcreate hzero
    | append_singleton js i ih =>
      intro hjs
      have hpre := (List.prefix_append js [i]).trans hjs
      rw [Transition.run_append]
      exact (ih hpre).step (hinv js hpre) (hstamped js i hjs)
  intro hobtains js i hjs
  exact beforeRefill_of_obtains (hstamps js ((List.prefix_append js [i]).trans hjs)) (hobtains js i hjs)

def oneSlot : Ring UInt64 := ⟨1, 0, [freeReader], Vector.replicate _ 0, Nat.one_pos⟩

def followedAtOnce : List (Step UInt64) :=
  [.ring (.connect 0), .ring (.write 7), .ring (.tryRead 0), .deref 0, .ring .prepare, .deref 0]

theorem obtains_followed_at_once :
    Transition.Guarded step ObtainsCommitted (start oneSlot ⟨0, false⟩) followedAtOnce := by
  have hcreate : Ring.create 1 1 (0 : UInt64) = .ok (oneSlot, ⟨0, false⟩) := rfl
  refine (obtains_iff_before_refill hcreate (by decide)).1 ?_
  simp only [followedAtOnce, Transition.guarded_cons, Transition.guarded_nil, and_true]
  exact ⟨trivial, trivial, trivial, by decide, trivial, by decide⟩

/-- The reader stands one full lap behind while the next message is being stored. -/
def readDuringFill : List (Step UInt64) :=
  [.ring (.connect 0), .ring (.write 7), .ring .prepare, .ring (.fill 9), .ring (.tryRead 0),
   .deref 0]

theorem read_during_fill_obtains_uncommitted :
    (Transition.run step (start oneSlot ⟨0, false⟩) readDuringFill).log = [7] ∧
      ¬ Transition.Guarded step ObtainsCommitted (start oneSlot ⟨0, false⟩) readDuringFill := by
  refine ⟨by decide, ?_⟩
  intro h
  have hlast := h (readDuringFill.take 5) (.deref 0) (List.prefix_refl _)
  exact absurd hlast (by decide)

end Nnxt.RingReferences
