import Nnxt.AddedSources

/-!
# Polling and handling

A poll takes the entry at the cursor of the first source that has one, and
`handle_event` passes it on; what has been taken stays the same.
-/

namespace Nnxt.TradeGatewayRunner

set_option autoImplicit false

open HashMap RingSystem

namespace System

section Poll
variable {s : System} {source n : Nat} {seq : UInt64}

/-- The source polled is one of the runner's and its queue has an entry for it. -/
theorem pollData_some (hpoll : s.pollData = some (source, n, seq)) :
    s.mapped[source]? = some n ∧
      ∃ queue, s.queueAt n = some queue ∧ polled queue source = some seq := by
  obtain ⟨⟨m, id⟩, hmem, hfound⟩ := List.exists_of_findSome?_eq_some hpoll
  obtain ⟨seq', hseq', heq⟩ := Option.map_eq_some_iff.mp hfound
  cases heq
  obtain ⟨queue, hqueue, hpolled⟩ := Option.bind_eq_some_iff.mp hseq'
  exact ⟨List.mem_zipIdx_iff_getElem?.mp hmem, queue, hqueue, hpolled⟩

theorem pollData_none (hpoll : s.pollData = none) (hmapped : s.mapped[source]? = some n)
    {queue : RingSystem Action} (hqueue : s.queueAt n = some queue) : polled queue source = none := by
  have hnone := List.findSome?_eq_none_iff.mp hpoll (n, source)
    (List.mem_zipIdx_iff_getElem?.mpr hmapped)
  simpa only [hqueue, Option.bind_some, Option.map_eq_none_iff] using hnone

/-- The state with the next entry of a source in hand. -/
def tookInHand (s : System) (source n : Nat) (seq : UInt64) : System :=
  { s with
    segments := s.stepAt n (.tryRead source)
    phase := .handling source seq }

/-- What `poll` does: nothing, a change of phase, or taking one entry in hand. -/
theorem poll_cases (s : System) (input : PollInput) :
    s.poll input = s ∨
      (s.phase.inHand = [] ∧ ∃ phase : Phase, phase.inHand = [] ∧
        s.poll input = { s with phase := phase }) ∨
      (s.phase.inHand = [] ∧ ∃ source n seq, s.pollData = some (source, n, seq) ∧
        s.poll input = s.tookInHand source n seq) := by
  unfold System.poll
  split
  · rename_i hphase
    have hhand : s.phase.inHand = [] := by rw [hphase]; rfl
    split
    · exact Or.inr (Or.inl ⟨hhand, _, rfl, rfl⟩)
    split
    · rename_i source n seq hpoll
      exact Or.inr (Or.inr ⟨hhand, source, n, seq, hpoll, rfl⟩)
    split
    · exact Or.inl rfl
    split
    · exact Or.inl rfl
    unfold System.handleControlMessage
    split
    · exact Or.inl rfl
    split
    · exact Or.inr (Or.inl ⟨hhand, _, rfl, rfl⟩)
    · exact Or.inl rfl
  · exact Or.inl rfl

/-- What a polled source has next. -/
structure Next (s : System) (source n : Nat) (seq : UInt64) (queue : RingSystem Action) : Prop where
  mapped : s.mapped[source]? = some n
  found : s.queueAt n = some queue
  unlapped : Unlapped queue source
  cursor : queue.cursor source = some seq.toNat
  committed : seq.toNat < queue.log.length
  after : (queue.step (.tryRead source)).cursor =
    Function.update queue.cursor source (some (seq.toNat + 1))

theorem Inv.next (h : s.Inv) (hlapped : s.NotLapped)
    (hpoll : s.pollData = some (source, n, seq)) : ∃ queue, s.Next source n seq queue := by
  obtain ⟨hmapped, queue, hqueue, hpolled⟩ := pollData_some hpoll
  have hnear := hlapped.unread (n, source) (List.mem_zipIdx_iff_getElem?.mpr hmapped) queue hqueue
  obtain ⟨hcursor, hlt, hafter⟩ := polled_some (h.rings _ queue hqueue) hnear hpolled
  exact ⟨queue, hmapped, hqueue, hnear, hcursor, hlt, hafter⟩

variable {queue : RingSystem Action}

theorem Next.queueAt_iff (hn : s.Next source n seq queue) {m : Nat} {found : RingSystem Action} :
    (s.tookInHand source n seq).queueAt m = some found ↔
      (m = n ∧ found = queue.step (.tryRead source)) ∨ (m ≠ n ∧ s.queueAt m = some found) := by
  have hsegments : (s.tookInHand source n seq).segments = s.stepAt n (.tryRead source) := rfl
  by_cases hm : m = n
  · subst hm
    rw [queueAt_stepAt_self hsegments hn.found, Option.some.injEq]
    simp only [true_and, ne_eq, not_true, false_and, or_false]
    exact eq_comm
  · rw [queueAt_stepAt_ne hsegments (Ne.symm hm)]
    simp only [hm, false_and, ne_eq, not_false_eq_true, true_and, false_or]

theorem Next.cursorAt (hn : s.Next source n seq queue) : s.CursorAt source n seq.toNat :=
  ⟨queue, hn.found, hn.cursor⟩

theorem Next.queue_eq (hn : s.Next source n seq queue) {m start : Nat}
    (hr : s.Reads source m start) : m = n :=
  Option.some.inj (hr.1.symm.trans hn.mapped)

theorem Next.cursorAt_iff (hn : s.Next source n seq queue) {i m c : Nat} :
    (s.tookInHand source n seq).CursorAt i m c ↔
      (i = source ∧ m = n ∧ c = seq.toNat + 1) ∨ (¬ (i = source ∧ m = n) ∧ s.CursorAt i m c) := by
  have hsegments : (s.tookInHand source n seq).segments = s.stepAt n (.tryRead source) := rfl
  unfold CursorAt
  by_cases hm : m = n
  · subst hm
    simp only [queueAt_stepAt_self hsegments hn.found, hn.found, Option.some.injEq, exists_eq_left',
      hn.after]
    by_cases hi : i = source
    · subst hi
      simp only [Function.update_self, Option.some.injEq, true_and, not_true, false_and, or_false]
      exact eq_comm
    · simp only [Function.update_of_ne hi, hi, false_and, not_false_eq_true, true_and, false_or]
  · simp only [queueAt_stepAt_ne hsegments (Ne.symm hm), hm, and_false, false_and,
      not_false_eq_true, true_and, false_or]

theorem Next.cursorAt_moved (hn : s.Next source n seq queue) :
    (s.tookInHand source n seq).CursorAt source n (seq.toNat + 1) :=
  hn.cursorAt_iff.mpr (Or.inl ⟨rfl, rfl, rfl⟩)

theorem taken_tookInHand (hhand : s.phase.inHand = []) :
    (s.tookInHand source n seq).taken = s.taken ++ [(source, seq.toNat)] := by
  rw [System.taken, System.taken, hhand, List.append_nil]
  rfl

theorem Next.mem_taken_iff (hn : s.Next source n seq queue) (h : s.Inv)
    (hhand : s.phase.inHand = []) (i k : Nat) :
    (i, k) ∈ (s.tookInHand source n seq).taken ↔
      ∃ m start c, s.Reads i m start ∧ (s.tookInHand source n seq).CursorAt i m c ∧
        start ≤ k ∧ k < c := by
  rw [taken_tookInHand hhand, List.mem_append, List.mem_singleton, h.taken]
  constructor
  · intro hmem
    rcases hmem with ⟨m, start, c, hr, hc, hle, hk⟩ | heq
    · by_cases hi : i = source ∧ m = n
      · obtain ⟨rfl, rfl⟩ := hi
        rw [hc.unique hn.cursorAt] at hk
        exact ⟨_, start, _, hr, hn.cursorAt_moved, hle, Nat.lt_succ_of_lt hk⟩
      · exact ⟨m, start, c, hr, hn.cursorAt_iff.mpr (Or.inr ⟨hi, hc⟩), hle, hk⟩
    · cases heq
      obtain ⟨start, hr⟩ := h.reads_mapped hn.mapped
      obtain ⟨c, hc, hle⟩ := h.reading source n start hr
      rw [hc.unique hn.cursorAt] at hle
      exact ⟨_, _, _, hr, hn.cursorAt_moved, hle, Nat.lt_succ_self _⟩
  · intro htaken
    obtain ⟨m, start, c, hr, hc, hle, hk⟩ := htaken
    rcases hn.cursorAt_iff.mp hc with ⟨rfl, rfl, rfl⟩ | ⟨hi, hc⟩
    · rcases Nat.lt_or_eq_of_le (Nat.le_of_lt_succ hk) with hk | heq
      · exact Or.inl ⟨_, start, _, hr, hn.cursorAt, hle, hk⟩
      · exact Or.inr (by rw [heq])
    · exact Or.inl ⟨m, start, c, hr, hc, hle, hk⟩

/-- The source has not taken the entry at its cursor before. -/
theorem Next.once (hn : s.Next source n seq queue) (h : s.Inv) (hhand : s.phase.inHand = []) :
    (s.tookInHand source n seq).taken.Nodup := by
  rw [taken_tookInHand hhand, List.nodup_append]
  refine ⟨h.once, List.nodup_singleton _, ?_⟩
  intro p hp q hq hpq
  rw [List.mem_singleton.mp hq] at hpq
  rw [hpq, h.taken] at hp
  obtain ⟨m, start, c, hr, hc, -, hk⟩ := hp
  rw [hn.queue_eq hr] at hc
  rw [hc.unique hn.cursorAt] at hk
  exact Nat.lt_irrefl _ hk

theorem Inv.tookInHand (h : s.Inv) (hlapped : s.NotLapped) (hhand : s.phase.inHand = [])
    (hpoll : s.pollData = some (source, n, seq)) : (s.tookInHand source n seq).Inv := by
  obtain ⟨queue, hn⟩ := h.next hlapped hpoll
  have hring := h.rings n queue hn.found
  refine ⟨?_, ?_, h.sources, h.starts, ?_, h.known, hn.mem_taken_iff h hhand, hn.once h hhand, ?_⟩
  · intro m found hfound
    rcases hn.queueAt_iff.mp hfound with ⟨-, rfl⟩ | ⟨-, hfound⟩
    · exact hring.outcome (hring.tryRead_outcome source)
    · exact h.rings m found hfound
  · intro m found hfound i hi
    rcases hn.queueAt_iff.mp hfound with ⟨-, rfl⟩ | ⟨-, hfound⟩
    · rw [tryRead_readers]
      exact h.fresh n queue hn.found i hi
    · exact h.fresh m found hfound i hi
  · intro i m start hr
    obtain ⟨c, hc, hle⟩ := h.reading i m start hr
    by_cases hi : i = source ∧ m = n
    · obtain ⟨rfl, rfl⟩ := hi
      rw [hc.unique hn.cursorAt] at hle
      exact ⟨seq.toNat + 1, hn.cursorAt_moved, Nat.le_succ_of_le hle⟩
    · exact ⟨c, hn.cursorAt_iff.mpr (Or.inr ⟨hi, hc⟩), hle⟩
  · intro call hcall
    obtain ⟨hreads, found, hfound, hvalue⟩ := h.calls call hcall
    refine ⟨hreads, ?_⟩
    by_cases hsame : call.queue = n
    · rw [hsame, hn.found] at hfound
      cases hfound
      refine ⟨_, hn.queueAt_iff.mpr (Or.inl ⟨hsame, rfl⟩), ?_⟩
      rw [tryRead_log]
      exact hvalue
    · exact ⟨found, hn.queueAt_iff.mpr (Or.inr ⟨hsame, hfound⟩), hvalue⟩

theorem Inv.poll (h : s.Inv) (hlapped : s.NotLapped) (input : PollInput) : (s.poll input).Inv := by
  rcases s.poll_cases input with hsame | ⟨hhand, phase, hphase, hafter⟩ |
    ⟨hhand, source, n, seq, hpoll, hafter⟩
  · rw [hsame]
    exact h
  · rw [hafter]
    exact h.withPhase (hphase.trans hhand.symm)
  · rw [hafter]
    exact h.tookInHand hlapped hhand hpoll

end Poll

section Handle
variable {s : System} {source : Nat} {seq : UInt64}

/-- The action in hand is passed on as it was committed. -/
theorem Inv.handle_eq (h : s.Inv) (hphase : s.phase = .handling source seq) (accepted : Bool) :
    ∃ n start queue, s.Reads source n start ∧ s.queueAt n = some queue ∧
      seq.toNat < queue.log.length ∧
      s.handle accepted =
        { s with
          phase := if accepted then .polling else .stopped
          executed := s.executed ++ [⟨source, n, seq, queue.ring.load seq⟩] } := by
  have hmem : (source, seq.toNat) ∈ s.taken := by
    rw [System.taken, hphase]
    exact List.mem_append_right _ (List.mem_singleton.mpr rfl)
  obtain ⟨n, start, c, hr, ⟨queue, hqueue, hcursor⟩, -, hk⟩ := (h.taken _ _).mp hmem
  obtain ⟨slot, hslot, rfl⟩ := Option.map_eq_some_iff.mp hcursor
  have hle := (h.rings n queue hqueue).cursors.cursor_le source slot hslot
  refine ⟨n, start, queue, hr, hqueue, Nat.lt_of_lt_of_le hk hle, ?_⟩
  have hknown := h.known source hr.lt
  simp only [System.handle, hphase, if_pos hknown, hr.1, hqueue]

theorem Inv.handle (h : s.Inv) (hlapped : s.NotLapped) (accepted : Bool) : (s.handle accepted).Inv := by
  cases hphase : s.phase with
  | handling source seq =>
    obtain ⟨n, start, queue, hr, hqueue, hlt, hafter⟩ := h.handle_eq hphase accepted
    have htaken : (s.handle accepted).taken = s.taken := by
      have hnone : (if accepted then Phase.polling else Phase.stopped).inHand = [] := by
        split <;> rfl
      rw [hafter, System.taken, System.taken, hnone, hphase, List.append_nil, List.map_append]
      rfl
    rw [hafter] at htaken ⊢
    refine ⟨h.rings, h.fresh, h.sources, h.starts, h.reading, h.known, ?_, ?_, ?_⟩
    · rw [htaken]
      exact h.taken
    · rw [htaken]
      exact h.once
    · intro call hcall
      rcases List.mem_append.mp hcall with hcall | hcall
      · exact h.calls call hcall
      · rw [List.mem_singleton.mp hcall]
        have hkept := hlapped.inHand source seq hphase n hr.1 queue hqueue
        exact ⟨⟨start, hr⟩, queue, hqueue, (h.rings _ queue hqueue).stored.content seq hlt hkept⟩
  | _ =>
    simp only [System.handle, hphase]
    exact h

theorem Inv.step (h : s.Inv) (hlapped : s.NotLapped) {i : Step}
    (hfew : ∀ segment ∈ (s.step i).segments, segment.queue.log.length < 2 ^ 64) :
    (s.step i).Inv := by
  cases i with
  | create addr capacity => exact h.create addr capacity
  | unlink addr => exact h.unlink addr
  | writer n op => exact h.writer n op hfew
  | attempt => exact h.attempt
  | poll input => exact h.poll hlapped input
  | handle accepted => exact h.handle hlapped accepted

end Handle

end System

end Nnxt.TradeGatewayRunner
