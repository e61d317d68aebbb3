import Nnxt.Ring
import Nnxt.Foundation.CursorLog

/-!
# One writer and its readers

The ring with every process that has opened it, stepped one operation at a
time. `log`, `fills` and `handed` record the history; no step reads them.
-/

namespace Nnxt

set_option autoImplicit false

/-- A reference handed to a reader, and what it pointed to at that moment. -/
structure Handed (T : Type) where
  reader : Nat
  seq : UInt64
  value : T

structure RingSystem (T : Type) where
  ring : Ring T
  writer : Writer
  readers : Nat → Option Nat
  log : List T
  fills : List Nat
  handed : List (Handed T)

inductive RingStep (T : Type) where
  | prepare
  | fill (value : T)
  | commit
  | write (value : T)
  | connect (reader : Nat)
  | tryRead (reader : Nat)
  | read (reader passes : Nat)
  | readTimeout (reader timeout : Nat) (elapsed : List Nat)
  | drop (reader : Nat)

namespace RingSystem
variable {T : Type}

def start (ring : Ring T) (writer : Writer) : RingSystem T := ⟨ring, writer, fun _ => none, [], [], []⟩

def prepare (s : RingSystem T) : RingSystem T := { s with writer := s.ring.prepare s.writer }

def fill (s : RingSystem T) (value : T) : RingSystem T :=
  -- the reference to the slot lives until `commit`
  if s.writer.hasPending then
    { s with
      ring := s.ring.store s.writer.pendingSeq value
      fills := s.fills ++ [s.writer.pendingSeq.toNat] }
  else s

/-- An effective commit puts what the slot holds into the log. -/
def commit (s : RingSystem T) : RingSystem T :=
  { s with
    ring := (s.ring.commit s.writer).1
    writer := (s.ring.commit s.writer).2
    log := if s.writer.hasPending then s.log ++ [s.ring.load s.writer.pendingSeq] else s.log }

def write (s : RingSystem T) (value : T) : RingSystem T :=
  { s with
    ring := (s.ring.write s.writer value).1
    writer := (s.ring.write s.writer value).2
    log := s.log ++ [value]
    fills := s.fills ++ [s.ring.writeSeq.toNat] }

def received (s : RingSystem T) (reader : Nat) : Ring T × Option UInt64 → RingSystem T
  | (ring, none) => { s with ring := ring }
  | (ring, some seq) => { s with ring := ring, handed := s.handed ++ [⟨reader, seq, ring.load seq⟩] }

def withReader (s : RingSystem T) (ring : Ring T) (reader : Nat) (slot : Option Nat) :
    RingSystem T :=
  { s with ring := ring, readers := Function.update s.readers reader slot }

def connect (s : RingSystem T) (reader : Nat) : RingSystem T :=
  match s.readers reader, s.ring.connect with
  | none, .ok (ring, slot) => s.withReader ring reader (some slot)
  | _, _ => s

def step (s : RingSystem T) : RingStep T → RingSystem T
  | .prepare => s.prepare
  | .fill value => s.fill value
  | .commit => s.commit
  | .write value => s.write value
  | .connect reader => s.connect reader
  | .tryRead reader =>
    match s.readers reader with
    | none => s
    | some slot => s.received reader (s.ring.tryRead slot)
  | .read reader passes =>
    match s.readers reader with
    | none => s
    | some slot =>
      match s.ring.read slot passes with
      | none => s
      | some (ring, seq) => s.received reader (ring, some seq)
  | .readTimeout reader timeout elapsed =>
    match s.readers reader with
    | none => s
    | some slot =>
      match s.ring.readTimeout slot timeout elapsed with
      | none => s
      | some result => s.received reader result
  | .drop reader =>
    match s.readers reader with
    | none => s
    | some slot => s.withReader (s.ring.drop slot) reader none

def cursor (s : RingSystem T) (reader : Nat) : Option Nat :=
  (s.readers reader).map fun slot => (s.ring.readSeq slot).toNat

/-- The writer has put a later value into the slot of position `k`. -/
def Refilled (s : RingSystem T) (k : Nat) : Prop :=
  ∃ m ∈ s.fills, k < m ∧ m % s.ring.capacity.toNat = k % s.ring.capacity.toNat

instance (s : RingSystem T) (k : Nat) : Decidable (s.Refilled k) :=
  inferInstanceAs (Decidable (∃ m ∈ s.fills, _))

/-- What the writer's side keeps: the slot of a position holds what was
committed there until it is filled again. -/
structure Stored (s : RingSystem T) : Prop where
  few : s.log.length < 2 ^ 64
  writeSeq : s.ring.writeSeq.toNat = s.log.length
  pending : s.writer.hasPending = true → s.writer.pendingSeq = s.ring.writeSeq
  fills_le : ∀ m ∈ s.fills, m < s.log.length ∨ (m = s.log.length ∧ s.writer.hasPending = true)
  content : ∀ k : UInt64, k.toNat < s.log.length → ¬ s.Refilled k.toNat →
    s.log[k.toNat]? = some (s.ring.load k)
  handed_lt : ∀ d ∈ s.handed, d.seq.toNat < s.log.length

/-- What the readers' side keeps. Two readers can share a slot only when both
stand at the sequence number that marks a slot as free. -/
structure Cursors (s : RingSystem T) : Prop where
  slot_lt : ∀ r i, s.readers r = some i → i < s.ring.readSlots.length
  cursor_le : ∀ r i, s.readers r = some i → (s.ring.readSeq i).toNat ≤ s.log.length
  exclusive : ∀ r r' i, s.readers r = some i → s.readers r' = some i → r ≠ r' →
    s.ring.readSeq i = freeReader

structure Inv (s : RingSystem T) : Prop where
  stored : s.Stored
  cursors : s.Cursors

section Writer
variable {s : RingSystem T}

theorem write_eq (s : RingSystem T) (value : T) :
    s.write value = ((s.prepare).fill value).commit := by
  have hload : ((s.ring.store s.ring.writeSeq value).load s.ring.writeSeq) = value := by
    rw [Ring.load_store, if_pos rfl]
  simp only [write, prepare, fill, commit, Ring.write, Ring.prepare, if_true, hload]

theorem Stored.prepare (h : s.Stored) : s.prepare.Stored where
  few := h.few
  writeSeq := h.writeSeq
  pending := fun _ => rfl
  fills_le := by
    intro m hm
    rcases h.fills_le m hm with hlt | ⟨heq, _⟩
    · exact Or.inl hlt
    · exact Or.inr ⟨heq, rfl⟩
  content := h.content
  handed_lt := h.handed_lt

/-- A second `prepare` hands out the same slot again. -/
theorem Stored.prepare_pending (h : s.Stored) (hp : s.writer.hasPending = true) : s.prepare = s := by
  have hw : s.ring.prepare s.writer = s.writer := by
    rw [Ring.prepare, ← h.pending hp, ← hp]
  rw [RingSystem.prepare, hw]

theorem fill_of_pending (hp : s.writer.hasPending = true) (value : T) :
    s.fill value = { s with
      ring := s.ring.store s.writer.pendingSeq value
      fills := s.fills ++ [s.writer.pendingSeq.toNat] } := if_pos hp

theorem fill_of_not_pending (hp : ¬ s.writer.hasPending = true) (value : T) : s.fill value = s :=
  if_neg hp

theorem commit_of_not_pending (hp : ¬ s.writer.hasPending = true) : s.commit = s := by
  simp only [commit, Ring.commit, if_neg hp]

theorem commit_of_pending (hp : s.writer.hasPending = true) :
    s.commit = { s with
      ring := { s.ring with writeSeq := s.writer.pendingSeq + 1 }
      writer := { s.writer with hasPending := false }
      log := s.log ++ [s.ring.load s.writer.pendingSeq] } := by
  simp only [commit, Ring.commit, if_pos hp]

theorem Stored.fill (h : s.Stored) (value : T) : (s.fill value).Stored := by
  by_cases hp : s.writer.hasPending = true
  · rw [fill_of_pending hp]
    have hseq : s.writer.pendingSeq.toNat = s.log.length := by rw [h.pending hp, h.writeSeq]
    refine ⟨h.few, h.writeSeq, h.pending, ?_, ?_, h.handed_lt⟩
    · intro m hm
      rcases List.mem_append.mp hm with hm | hm
      · exact h.fills_le m hm
      · rw [List.mem_singleton.mp hm]
        exact Or.inr ⟨hseq, hp⟩
    · intro k hk hfresh
      have hold : ¬ s.Refilled k.toNat := by
        rintro ⟨m, hm, hlt, hmod⟩
        exact hfresh ⟨m, List.mem_append_left _ hm, hlt, hmod⟩
      -- a slot in which `k` is still fresh is not the one being filled
      have hother : s.writer.pendingSeq.toNat % s.ring.capacity.toNat ≠
          k.toNat % s.ring.capacity.toNat := by
        intro hmod
        refine hfresh ⟨s.writer.pendingSeq.toNat, ?_, ?_, hmod⟩
        · exact List.mem_append_right _ (List.mem_singleton.mpr rfl)
        · rw [hseq]
          exact hk
      rw [Ring.load_store, if_neg hother]
      exact h.content k hk hold
  · rw [fill_of_not_pending hp]
    exact h

theorem Stored.commit (h : s.Stored) (hfew : s.commit.log.length < 2 ^ 64) : s.commit.Stored := by
  by_cases hp : s.writer.hasPending = true
  · rw [commit_of_pending hp] at hfew ⊢
    have hseq : s.writer.pendingSeq.toNat = s.log.length := by rw [h.pending hp, h.writeSeq]
    simp only [List.length_append, List.length_singleton] at hfew
    refine ⟨?_, ?_, ?_, ?_, ?_, ?_⟩
    · simpa only [List.length_append, List.length_singleton] using hfew
    · simp only [List.length_append, List.length_singleton, UInt64.toNat_add, UInt64.toNat_one, hseq]
      exact Nat.mod_eq_of_lt hfew
    · intro hfalse
      cases hfalse
    · intro m hm
      simp only [List.length_append, List.length_singleton]
      rcases h.fills_le m hm with hlt | ⟨heq, _⟩
      · exact Or.inl (by omega)
      · exact Or.inl (by omega)
    · intro k hk hfresh
      simp only [List.length_append, List.length_singleton] at hk
      rcases Nat.lt_or_eq_of_le (Nat.le_of_lt_succ hk) with hlt | heq
      · rw [List.getElem?_append_left hlt]
        exact h.content k hlt hfresh
      · have hk' : k = s.writer.pendingSeq := UInt64.toNat_inj.mp (heq.trans hseq.symm)
        rw [heq, List.getElem?_append_right (Nat.le_refl _), Nat.sub_self, hk']
        rfl
    · intro d hd
      have := h.handed_lt d hd
      simp only [List.length_append, List.length_singleton]
      omega
  · rw [commit_of_not_pending hp]
    exact h

theorem Cursors.commit (h : s.Cursors) : s.commit.Cursors := by
  by_cases hp : s.writer.hasPending = true
  · rw [commit_of_pending hp]
    refine ⟨h.slot_lt, ?_, h.exclusive⟩
    intro r i hr
    have := h.cursor_le r i hr
    simp only [List.length_append, List.length_singleton]
    exact Nat.le_succ_of_le this
  · rw [commit_of_not_pending hp]
    exact h

theorem Cursors.fill (h : s.Cursors) (value : T) : (s.fill value).Cursors := by
  by_cases hp : s.writer.hasPending = true
  · rw [fill_of_pending hp]
    exact ⟨h.slot_lt, h.cursor_le, h.exclusive⟩
  · rw [fill_of_not_pending hp]
    exact h

theorem Inv.prepare (h : s.Inv) : s.prepare.Inv :=
  ⟨h.stored.prepare, ⟨h.cursors.slot_lt, h.cursors.cursor_le, h.cursors.exclusive⟩⟩

theorem Inv.fill (h : s.Inv) (value : T) : (s.fill value).Inv :=
  ⟨h.stored.fill value, h.cursors.fill value⟩

theorem Inv.commit (h : s.Inv) (hfew : s.commit.log.length < 2 ^ 64) : s.commit.Inv :=
  ⟨h.stored.commit hfew, h.cursors.commit⟩

theorem Inv.write (h : s.Inv) (value : T) (hfew : (s.write value).log.length < 2 ^ 64) :
    (s.write value).Inv := by
  rw [write_eq] at hfew ⊢
  exact (h.prepare.fill value).commit hfew

/-- Between writer operations the retained window is intact. -/
theorem Stored.not_refilled (h : s.Stored) (hp : s.writer.hasPending = false) {k : Nat}
    (hwindow : s.log.length ≤ k + s.ring.capacity.toNat) : ¬ s.Refilled k := by
  rintro ⟨m, hm, hlt, hmod⟩
  have hcap := s.ring.capacity_pos
  have hge : k + s.ring.capacity.toNat ≤ m := by
    have hdvd : s.ring.capacity.toNat ∣ m - k := Nat.dvd_of_mod_eq_zero (Nat.sub_mod_eq_zero_of_mod_eq hmod)
    have := Nat.le_of_dvd (by omega) hdvd
    omega
  rcases h.fills_le m hm with hm | ⟨_, hpending⟩
  · omega
  · rw [hp] at hpending
    cases hpending

end Writer

end RingSystem

end Nnxt
