import Mathlib.Algebra.Order.BigOperators.Group.List
import Mathlib.Algebra.Order.Group.Nat
import Nnxt.TakenOnce

/-!
# The drained gateway

Drained, the gateway has executed from each queue what its sources have taken, so
an action has been executed once if one source has taken it. The loop drains what
is left by itself.
-/

namespace Nnxt.TradeGatewayRunner

set_option autoImplicit false

open HashMap RingSystem Transition

namespace System

section Drained
variable {s : System}

theorem inv_start (actionQueues : List String) : (start actionQueues).Inv := by
  have hnone : ∀ phase : Phase, phase = beginAdding actionQueues → phase.inHand = [] := by
    intro phase hphase
    rw [hphase]
    cases actionQueues <;> rfl
  have htaken : (start actionQueues).taken = [] := hnone _ rfl
  have hreads : ∀ {i n start'}, ¬ (start actionQueues).Reads i n start' := fun hr => by cases hr.2
  refine ⟨?_, ?_, rfl, rfl, ?_, ?_, ?_, ?_, ?_⟩
  · intro n queue hqueue
    cases hqueue
  · intro n queue hqueue
    cases hqueue
  · intro i n start' hr
    exact absurd hr hreads
  · intro i hi
    exact absurd hi (Nat.not_lt_zero i)
  · intro i k
    rw [htaken]
    refine iff_of_false List.not_mem_nil fun htaken => ?_
    obtain ⟨n, start', c, hr, -⟩ := htaken
    exact hreads hr
  · rw [htaken]
    exact List.nodup_nil
  · intro call hcall
    cases hcall

theorem mem_inHand {p : Nat × Nat} (hp : p ∈ s.phase.inHand) :
    ∃ source seq, s.phase = .handling source seq ∧ p = (source, seq.toNat) := by
  cases hphase : s.phase with
  | handling source seq =>
    rw [hphase] at hp
    exact ⟨source, seq, rfl, List.mem_singleton.mp hp⟩
  | _ =>
    rw [hphase] at hp
    cases hp

theorem Drained.inHand_nil (hd : s.Drained) : s.phase.inHand = [] := by
  cases hphase : s.phase with
  | handling source seq => exact absurd hphase (hd.idle source seq)
  | _ => rfl

/-- Drained, each source has passed on everything from its start to the end. -/
theorem Inv.executed_iff (h : s.Inv) (hd : s.Drained) {n : Nat} {queue : RingSystem Action}
    (hqueue : s.queueAt n = some queue) {i start : Nat} (hr : s.Reads i n start) (k : Nat) :
    (∃ call ∈ s.executed, call.source = i ∧ call.seq.toNat = k) ↔
      start ≤ k ∧ k < queue.log.length := by
  have hhand : s.phase.inHand = [] := hd.inHand_nil
  have hcursor := hd.caughtUp (n, i) (List.mem_zipIdx_iff_getElem?.mpr hr.1) queue hqueue
  have hat : s.CursorAt i n queue.log.length := ⟨queue, hqueue, hcursor⟩
  have htaken := h.taken i k
  rw [System.taken, hhand, List.append_nil, List.mem_map] at htaken
  simp only [Prod.mk.injEq] at htaken
  rw [htaken]
  constructor
  · intro hmem
    obtain ⟨m, start', c, hr', hc, hle, hlt⟩ := hmem
    obtain ⟨rfl, rfl⟩ := hr.unique hr'
    rw [hc.unique hat] at hlt
    exact ⟨hle, hlt⟩
  · intro hbetween
    exact ⟨n, start, _, hr, hat, hbetween⟩

theorem mem_callsAt {n k : Nat} {call : Call} :
    call ∈ s.callsAt n k ↔ call ∈ s.executed ∧ call.queue = n ∧ call.seq.toNat = k := by
  rw [callsAt, List.mem_filter, decide_eq_true_eq]

/-- The calls for an entry are those of the sources that take it. -/
theorem Inv.takes_iff (h : s.Inv) (hd : s.Drained) {n k : Nat} {queue : RingSystem Action}
    (hqueue : s.queueAt n = some queue) (hk : k < queue.log.length) (i : Nat) :
    s.Takes i n k ↔ ∃ call ∈ s.callsAt n k, call.source = i := by
  constructor
  · intro htakes
    obtain ⟨start, hr, hle⟩ := htakes
    obtain ⟨call, hcall, rfl, hseq⟩ := (h.executed_iff hd hqueue hr k).mpr ⟨hle, hk⟩
    obtain ⟨⟨start', hr'⟩, -⟩ := h.calls call hcall
    exact ⟨call, mem_callsAt.mpr ⟨hcall, (hr'.unique hr).1, hseq⟩, rfl⟩
  · intro hcalled
    obtain ⟨call, hmem, rfl⟩ := hcalled
    obtain ⟨hcall, rfl, hseq⟩ := mem_callsAt.mp hmem
    obtain ⟨⟨start, hr⟩, -⟩ := h.calls call hcall
    exact ⟨start, hr, ((h.executed_iff hd hqueue hr k).mp ⟨call, hcall, rfl, hseq⟩).1⟩

/-- No source passes the same entry on twice. -/
theorem Inv.call_unique (h : s.Inv) {n k : Nat} {call call' : Call} (hcall : call ∈ s.callsAt n k)
    (hcall' : call' ∈ s.callsAt n k) (hsource : call'.source = call.source) : call' = call := by
  have honce := (List.nodup_append.mp h.once).1
  obtain ⟨hmem, -, hseq⟩ := mem_callsAt.mp hcall
  obtain ⟨hmem', -, hseq'⟩ := mem_callsAt.mp hcall'
  apply List.inj_on_of_nodup_map honce hmem' hmem
  rw [hsource, hseq, hseq']

theorem Inv.callsAt_nodup (h : s.Inv) (n k : Nat) : (s.callsAt n k).Nodup := by
  have honce := (List.nodup_append.mp h.once).1
  exact (List.Nodup.of_map _ honce).filter _

theorem eq_singleton_of_forall {α : Type} {l : List α} {a : α} (hnodup : l.Nodup) (hmem : a ∈ l)
    (h : ∀ b ∈ l, b = a) : l = [a] := by
  have hl := List.eq_replicate_iff.mpr ⟨rfl, h⟩
  rw [hl, List.nodup_replicate] at hnodup
  have hpos := List.length_pos_of_mem hmem
  rw [hl, Nat.le_antisymm hnodup hpos]
  rfl

/-- There is one call for an entry when one source takes it, and then it is right. -/
theorem Inv.existsUnique_takes_iff (h : s.Inv) (hd : s.Drained) {n k : Nat}
    {queue : RingSystem Action} (hqueue : s.queueAt n = some queue) (hk : k < queue.log.length) :
    (∃! i, s.Takes i n k) ↔ ∃ call, s.callsAt n k = [call] ∧ queue.log[k]? = some call.action := by
  rw [existsUnique_congr (h.takes_iff hd hqueue hk)]
  constructor
  · intro hone
    obtain ⟨i, ⟨call, hcall, rfl⟩, honly⟩ := hone
    refine ⟨call, eq_singleton_of_forall (h.callsAt_nodup n k) hcall ?_, ?_⟩
    · intro other hother
      exact h.call_unique hcall hother (honly other.source ⟨other, hother, rfl⟩)
    · obtain ⟨hmem, rfl, rfl⟩ := mem_callsAt.mp hcall
      obtain ⟨-, found, hfound, hvalue⟩ := h.calls call hmem
      rw [hqueue] at hfound
      cases hfound
      exact hvalue
  · intro hcalls
    obtain ⟨call, hcalls, -⟩ := hcalls
    rw [hcalls]
    refine ⟨call.source, ⟨call, List.mem_singleton_self call, rfl⟩, ?_⟩
    intro i hi
    obtain ⟨other, hother, rfl⟩ := hi
    rw [List.mem_singleton.mp hother]

/-- What two sources take is executed twice, what none takes is not executed. -/
theorem Inv.executedOnce_iff (h : s.Inv) (hd : s.Drained) : s.ExecutedOnce ↔ s.OneEach := by
  constructor
  · intro hexec n due log k hshown hle hlt
    obtain ⟨segment, hsegment, hpair⟩ := Option.map_eq_some_iff.mp hshown
    injection hpair with hdue hlog
    subst hlog
    rw [h.existsUnique_takes_iff hd (queueAt_of_segment hsegment) hlt]
    exact hexec n segment due k hsegment hdue hle hlt
  · intro hone n segment due k hsegment hdue hle hlt
    rw [← h.existsUnique_takes_iff hd (queueAt_of_segment hsegment) hlt]
    exact hone n due segment.queue.log k (by rw [shownAt_of_segment hsegment, hdue]) hle hlt

end Drained

section Draining
variable {s : System} {source n : Nat} {seq : UInt64}

/-- How many entries a source is behind. -/
def lag (s : System) (p : Nat × Nat) : Nat :=
  match s.queueAt p.1 with
  | none => 0
  | some queue => queue.log.length - (queue.cursor p.2).getD 0

def backlog (s : System) : Nat := (s.mapped.zipIdx.map s.lag).sum

theorem refilled_tryRead {queue : RingSystem Action} (h : queue.Inv) (reader k : Nat) :
    (queue.step (.tryRead reader)).Refilled k ↔ queue.Refilled k := by
  cases h.tryRead_outcome reader with
  | nothing hs => rw [hs]
  | entry slot hr hb hs =>
    rw [hs]
    rfl

theorem Inv.lag_tookInHand (h : s.Inv) (hlapped : s.NotLapped)
    (hpoll : s.pollData = some (source, n, seq)) {p : Nat × Nat} (hp : p ∈ s.mapped.zipIdx) :
    (s.tookInHand source n seq).lag p ≤ s.lag p ∧
      (p.2 = source → (s.tookInHand source n seq).lag p < s.lag p) := by
  obtain ⟨queue, hn⟩ := h.next hlapped hpoll
  have hmapped := List.mem_zipIdx_iff_getElem?.mp hp
  have hsegments : (s.tookInHand source n seq).segments = s.stepAt n (.tryRead source) := rfl
  by_cases hqueue : p.1 = n
  · have hbefore : s.queueAt p.1 = some queue := hqueue ▸ hn.found
    have hread : (s.tookInHand source n seq).queueAt p.1 = some (queue.step (.tryRead source)) :=
      hn.queueAt_iff.mpr (Or.inl ⟨hqueue, rfl⟩)
    have hlt := hn.committed
    simp only [lag, hbefore, hread, tryRead_log, hn.after]
    by_cases hreader : p.2 = source
    · rw [hreader, Function.update_self, hn.cursor, Option.getD_some, Option.getD_some]
      exact ⟨by omega, fun _ => by omega⟩
    · rw [Function.update_of_ne hreader]
      exact ⟨Nat.le_refl _, fun heq => absurd heq hreader⟩
  · have hreader : p.2 ≠ source := by
      intro heq
      rw [heq, hn.mapped] at hmapped
      exact hqueue (Option.some.inj hmapped).symm
    simp only [lag, queueAt_stepAt_ne hsegments (Ne.symm hqueue)]
    exact ⟨Nat.le_refl _, fun heq => absurd heq hreader⟩

theorem Inv.backlog_tookInHand (h : s.Inv) (hlapped : s.NotLapped)
    (hpoll : s.pollData = some (source, n, seq)) :
    (s.tookInHand source n seq).backlog < s.backlog := by
  have hmem : (n, source) ∈ s.mapped.zipIdx :=
    List.mem_zipIdx_iff_getElem?.mpr (pollData_some hpoll).1
  apply List.sum_lt_sum
  · intro p hp
    exact (h.lag_tookInHand hlapped hpoll hp).1
  · exact ⟨(n, source), hmem, (h.lag_tookInHand hlapped hpoll hmem).2 rfl⟩

theorem Inv.notLapped_tookInHand (h : s.Inv) (hlapped : s.NotLapped)
    (hpoll : s.pollData = some (source, n, seq)) : (s.tookInHand source n seq).NotLapped := by
  obtain ⟨queue, hn⟩ := h.next hlapped hpoll
  have hring := h.rings n queue hn.found
  refine ⟨?_, ?_, ?_⟩
  · rw [few_iff]
    intro m found hfound
    rcases hn.queueAt_iff.mp hfound with ⟨-, rfl⟩ | ⟨-, hfound⟩
    · rw [tryRead_log]
      exact few_iff.mp hlapped.few n queue hn.found
    · exact few_iff.mp hlapped.few m found hfound
  · intro p hp found hfound
    rcases hn.queueAt_iff.mp hfound with ⟨hqueue, rfl⟩ | ⟨-, hfound⟩
    · have hold := hlapped.unread p hp queue (hqueue ▸ hn.found)
      intro c hc
      rw [hn.after] at hc
      rw [tryRead_log, hring.capacity_step]
      simp only [refilled_tryRead hring]
      by_cases hreader : p.2 = source
      · rw [hreader, Function.update_self] at hc
        cases hc
        obtain ⟨hclose, hkept⟩ := hn.unlapped _ hn.cursor
        exact ⟨by omega, fun k hk hle => hkept k hk (by omega)⟩
      · rw [Function.update_of_ne hreader] at hc
        exact hold c hc
    · exact hlapped.unread p hp found hfound
  · intro source' seq' hphase m hmapped found hfound
    cases hphase
    have hm : m = n := Option.some.inj (Eq.trans (Eq.symm hmapped) hn.mapped)
    rcases hn.queueAt_iff.mp hfound with ⟨-, rfl⟩ | ⟨hne, -⟩
    · rw [refilled_tryRead hring]
      exact (hn.unlapped _ hn.cursor).2 seq.toNat hn.committed (Nat.le_refl _)
    · exact absurd hm hne

theorem step_poll (hphase : s.phase = .polling) (hpoll : s.pollData = some (source, n, seq)) :
    s.step (.poll ⟨false, false, none⟩) = s.tookInHand source n seq := by
  simp only [System.step, System.poll, hphase, hpoll, Bool.false_eq_true, if_false]
  rfl

/-- Passing the entry in hand on leaves the queues and the cursors alone. -/
theorem Inv.handled (h : s.Inv) (hlapped : s.NotLapped) (hphase : s.phase = .handling source seq) :
    (s.step (.handle true)).phase = .polling ∧ (s.step (.handle true)).NotLapped ∧
      (s.step (.handle true)).backlog = s.backlog := by
  obtain ⟨n, start, queue, -, -, -, hafter⟩ := h.handle_eq hphase true
  have hstep : s.step (.handle true) = _ := hafter
  rw [hstep]
  refine ⟨rfl, ⟨hlapped.few, hlapped.unread, ?_⟩, rfl⟩
  intro source' seq' hhandling
  cases hhandling

/-- A source without data has caught up, so with none left the runner is drained. -/
theorem Inv.drained_here (h : s.Inv) (hlapped : s.NotLapped) (hphase : s.phase = .polling)
    (hpoll : s.pollData = none) :
    (∀ i ∈ ([] : List Step), Own i) ∧ Always System.step NotLapped s [] ∧
      (run System.step s []).Drained := by
  refine ⟨?_, always_nil.mpr hlapped, ?_, ?_⟩
  · intro i hi
    cases hi
  · intro source seq hhandling
    rw [run_nil, hphase] at hhandling
    cases hhandling
  · intro p hp queue hqueue
    have hmapped := List.mem_zipIdx_iff_getElem?.mp hp
    obtain ⟨start, hr⟩ := h.reads_mapped hmapped
    obtain ⟨c, ⟨queue', hqueue', hcursor⟩, -⟩ := h.reading _ _ start hr
    have hsame : queue' = queue := Option.some.inj (hqueue'.symm.trans hqueue)
    rw [hsame] at hcursor
    have hcaught := polled_none (h.rings _ _ hqueue) hcursor (pollData_none hpoll hmapped hqueue)
    rw [hcursor, hcaught]

/-- A polling runner takes and passes on one entry after the other until none is left. -/
theorem Inv.drains_polling (bound : Nat) (h : s.Inv) (hlapped : s.NotLapped)
    (hphase : s.phase = .polling) (hle : s.backlog ≤ bound) :
    ∃ js, (∀ i ∈ js, Own i) ∧ Always System.step NotLapped s js ∧ (run System.step s js).Drained := by
  induction bound generalizing s with
  | zero =>
    cases hpoll : s.pollData with
    | none => exact ⟨[], h.drained_here hlapped hphase hpoll⟩
    | some found =>
      obtain ⟨source, n, seq⟩ := found
      have hless := h.backlog_tookInHand hlapped hpoll
      omega
  | succ bound ih =>
    cases hpoll : s.pollData with
    | none => exact ⟨[], h.drained_here hlapped hphase hpoll⟩
    | some found =>
      obtain ⟨source, n, seq⟩ := found
      have hhand : s.phase.inHand = [] := by rw [hphase]; rfl
      have htaken := h.tookInHand hlapped hhand hpoll
      have hkept := h.notLapped_tookInHand hlapped hpoll
      have hless := h.backlog_tookInHand hlapped hpoll
      obtain ⟨hpolling, hkept', hbacklog⟩ := htaken.handled hkept rfl
      have hsmaller : ((s.tookInHand source n seq).step (.handle true)).backlog ≤ bound := by
        rw [hbacklog]
        omega
      obtain ⟨js, hown, halways, hdrained⟩ := ih (htaken.handle hkept true) hkept' hpolling hsmaller
      refine ⟨.poll ⟨false, false, none⟩ :: .handle true :: js, ?_, ?_, ?_⟩
      · intro i hi
        rcases List.mem_cons.mp hi with rfl | hi
        · rfl
        rcases List.mem_cons.mp hi with rfl | hi
        · rfl
        · exact hown i hi
      · rw [always_cons, always_cons, step_poll hphase hpoll]
        exact ⟨hlapped, hkept, halways⟩
      · rw [run_cons, run_cons, step_poll hphase hpoll]
        exact hdrained

end Draining

end System

end Nnxt.TradeGatewayRunner
