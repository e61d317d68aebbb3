import Nnxt.RingReaders

/-!
# Runs of the ring

The invariant along every run of fewer than 2^64 commits, in whatever order the
steps of the writer and of the readers come.
-/

namespace Nnxt

set_option autoImplicit false

namespace RingSystem
variable {T : Type}

section Runs
variable {s : RingSystem T}

theorem Inv.step (h : s.Inv) (i : RingStep T) (hfew : (s.step i).log.length < 2 ^ 64) :
    (s.step i).Inv := by
  cases i with
  | prepare => exact h.prepare
  | fill value => exact h.fill value
  | commit => exact h.commit hfew
  | write value => exact h.write value hfew
  | connect reader => exact h.connect reader
  | tryRead reader => exact h.outcome (h.tryRead_outcome reader)
  | read reader passes =>
    cases passes with
    | zero => exact (s.step_read_zero reader).symm ▸ h
    | succ passes => exact h.outcome (h.read_outcome reader passes)
  | readTimeout reader timeout elapsed =>
    cases elapsed with
    | nil => exact (s.step_readTimeout_nil reader timeout).symm ▸ h
    | cons e later => exact h.outcome (h.readTimeout_outcome reader timeout e later)
  | drop reader =>
    cases hr : s.readers reader with
    | none => simpa only [RingSystem.step, hr] using h
    | some slot =>
      simp only [RingSystem.step, hr]
      exact h.detach hr

theorem inv_start {capacity : UInt64} {maxReaders : Nat} {zero : T} {ring : Ring T}
    {writer : Writer} (h : Ring.create capacity maxReaders zero = .ok (ring, writer)) :
    (start ring writer).Inv := by
  unfold Ring.create at h
  split at h
  · cases h
    refine ⟨⟨Nat.two_pow_pos 64, rfl, ?_, ?_, ?_, ?_⟩, ?_, ?_, ?_⟩
    · intro hfalse
      cases hfalse
    · intro m hm
      cases hm
    · intro k hk
      exact absurd hk (Nat.not_lt_zero _)
    · intro d hd
      cases hd
    · intro r i hr
      cases hr
    · intro r i hr
      cases hr
    · intro r r' i hr
      cases hr
  · cases h

theorem Inv.capacity_step (h : s.Inv) (i : RingStep T) :
    (s.step i).ring.capacity = s.ring.capacity := by
  have houtcome : ∀ reader s', ReadOutcome s reader s' → s'.ring.capacity = s.ring.capacity := by
    intro reader s' ho
    cases ho with
    | nothing hs => rw [hs]
    | entry slot hr hb hs => rw [hs]; rfl
  cases i with
  | prepare => rfl
  | fill value =>
    simp only [RingSystem.step, RingSystem.fill]
    split <;> rfl
  | commit =>
    simp only [RingSystem.step, RingSystem.commit, Ring.commit]
    split <;> rfl
  | write value => rfl
  | connect reader =>
    simp only [RingSystem.step, RingSystem.connect]
    split
    · rename_i hok
      obtain ⟨_, _, rfl⟩ := s.ring.connect_ok hok
      rfl
    · rfl
  | tryRead reader => exact houtcome reader _ (h.tryRead_outcome reader)
  | read reader passes =>
    cases passes with
    | zero => rw [step_read_zero]
    | succ passes => exact houtcome reader _ (h.read_outcome reader passes)
  | readTimeout reader timeout elapsed =>
    cases elapsed with
    | nil => rw [step_readTimeout_nil]
    | cons e later => exact houtcome reader _ (h.readTimeout_outcome reader timeout e later)
  | drop reader =>
    simp only [RingSystem.step]
    split <;> rfl

theorem received_log (reader : Nat) (result : Ring T × Option UInt64) :
    (s.received reader result).log = s.log := by
  rcases result with ⟨ring, _ | seq⟩ <;> rfl

theorem received_readers (reader : Nat) (result : Ring T × Option UInt64) :
    (s.received reader result).readers = s.readers := by
  rcases result with ⟨ring, _ | seq⟩ <;> rfl

theorem tryRead_readers (s : RingSystem T) (reader : Nat) :
    (s.step (.tryRead reader)).readers = s.readers := by
  simp only [step]
  split
  · rfl
  · rw [received_readers]

theorem tryRead_log (s : RingSystem T) (reader : Nat) :
    (s.step (.tryRead reader)).log = s.log := by
  simp only [step]
  split
  · rfl
  · rw [received_log]

theorem connect_log (s : RingSystem T) (reader : Nat) : (s.connect reader).log = s.log := by
  unfold connect
  split <;> rfl

theorem log_prefix_step (s : RingSystem T) (i : RingStep T) : s.log <+: (s.step i).log := by
  cases i with
  | prepare => exact List.prefix_refl _
  | fill value =>
    simp only [step, fill]
    split <;> exact List.prefix_refl _
  | commit =>
    simp only [step, commit]
    split
    · exact List.prefix_append _ _
    · exact List.prefix_refl _
  | write value => exact List.prefix_append _ _
  | connect reader => rw [step, connect_log]
  | tryRead reader => rw [tryRead_log]
  | read reader passes =>
    simp only [step]
    split
    · exact List.prefix_refl _
    · split
      · exact List.prefix_refl _
      · rw [received_log]
  | readTimeout reader timeout elapsed =>
    simp only [step]
    split
    · exact List.prefix_refl _
    · split
      · exact List.prefix_refl _
      · rw [received_log]
  | drop reader =>
    simp only [step]
    split <;> exact List.prefix_refl _

theorem log_prefix_run (s : RingSystem T) (is : List (RingStep T)) :
    s.log <+: (Transition.run step s is).log := by
  induction is generalizing s with
  | nil => exact List.prefix_refl _
  | cons i is ih => exact (log_prefix_step s i).trans (ih (s.step i))

theorem Inv.run {is : List (RingStep T)} (h : s.Inv)
    (hfew : (Transition.run RingSystem.step s is).log.length < 2 ^ 64) :
    Transition.Always RingSystem.step Inv s is := by
  have keep : ∀ (s : RingSystem T) (i : RingStep T), s.Inv →
      (RingSystem.step s i).log.length < 2 ^ 64 → (RingSystem.step s i).Inv :=
    fun s i h hg => h.step i hg
  refine Transition.always_of_guarded keep h ?_
  rintro js i ⟨ks, rfl⟩
  have hle := (log_prefix_run (Transition.run RingSystem.step s (js ++ [i])) ks).length_le
  rw [← Transition.run_append, Transition.run_append RingSystem.step s js] at hle
  exact Nat.lt_of_le_of_lt hle hfew

end Runs

end RingSystem

end Nnxt
