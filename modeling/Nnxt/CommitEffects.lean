import Nnxt.PolledActions

/-!
# What a step does to sources and commits

A step adds a source, which starts at the end of its queue, or commits an entry,
or creates an empty queue; any other step leaves both alone.
-/

namespace Nnxt.TradeGatewayRunner

set_option autoImplicit false

open HashMap RingSystem

namespace System

/-- From where on a queue is due, and what has been committed to it. -/
def shownAt (s : System) (n : Nat) : Option (Option Nat × List Action) :=
  (s.segments[n]?).map fun segment => (segment.due, segment.queue.log)

/-- The source takes the entry at position `k` sooner or later. -/
def Takes (s : System) (i n k : Nat) : Prop := ∃ start, s.Reads i n start ∧ start ≤ k

/-- What a step does to the sources and to what is committed. -/
inductive Effect (s s' : System) : Step → Prop where
  | quiet (i : Step) (guard : s.OneSource i) (ctx : s'.ctx = s.ctx) (mapped : s'.mapped = s.mapped)
      (starts : s'.starts = s.starts) (shown : ∀ n, s'.shownAt n = s.shownAt n) : Effect s s' i
  | created (addr : String) (capacity : UInt64) (due : Option Nat) (ctx : s'.ctx = s.ctx)
      (mapped : s'.mapped = s.mapped) (starts : s'.starts = s.starts)
      (zero : ∀ start, due = some start → start = 0)
      (shown : ∀ n, s'.shownAt n =
        if n = s.segments.length then some (due, []) else s.shownAt n) :
      Effect s s' (.create addr capacity)
  | committed (n : Nat) (op : WriterOp) (segment : Segment) (action : Action)
      (found : s.segments[n]? = some segment) (commits : Commits segment.queue op)
      (ctx : s'.ctx = s.ctx) (mapped : s'.mapped = s.mapped) (starts : s'.starts = s.starts)
      (shown : ∀ m, s'.shownAt m =
        if m = n then some (segment.due, segment.queue.log ++ [action]) else s.shownAt m) :
      Effect s s' (.writer n op)
  | added (n : Nat) (queue : RingSystem Action) (found : s.queueAt n = some queue)
      (sources : s'.ctx.rapidSources.length = s'.mapped.length)
      (starts : s'.starts.length = s'.mapped.length)
      (reads : ∀ i m start, s'.Reads i m start ↔
        s.Reads i m start ∨ i = s.mapped.length ∧ m = n ∧ start = queue.log.length)
      (marks : Nat → Bool)
      (shown : ∀ m, s'.shownAt m = (s.shownAt m).map fun (due, log) =>
        (if marks m then some (due.getD log.length) else due, log)) :
      Effect s s' .attempt

section Effects
variable {s s' : System} {i : Step}

theorem shownAt_of_segment {n : Nat} {segment : Segment} (h : s.segments[n]? = some segment) :
    s.shownAt n = some (segment.due, segment.queue.log) := by
  rw [shownAt, h, Option.map_some]

/-- An operation on a queue that commits nothing to it. -/
theorem shownAt_stepAt {n : Nat} {j : RingStep Action} (h : s'.segments = s.stepAt n j)
    (hlog : ∀ segment, s.segments[n]? = some segment →
      (segment.queue.step j).log = segment.queue.log) (m : Nat) : s'.shownAt m = s.shownAt m := by
  rw [shownAt, h, getElem?_stepAt, shownAt, Option.map_map]
  cases hsegment : s.segments[m]? with
  | none => rfl
  | some segment =>
    simp only [Option.map_some, Function.comp_apply]
    split
    · rename_i heq
      rw [Segment.step, hlog segment (heq ▸ hsegment)]
    · rfl

theorem log_writerOp (queue : RingSystem Action) (op : WriterOp) :
    (¬ Commits queue op ∧ (queue.step op.ringStep).log = queue.log) ∨
      (Commits queue op ∧ ∃ action, (queue.step op.ringStep).log = queue.log ++ [action]) := by
  cases op with
  | prepare => exact Or.inl ⟨fun h => h, rfl⟩
  | fill action =>
    refine Or.inl ⟨fun h => h, ?_⟩
    simp only [WriterOp.ringStep, RingSystem.step, RingSystem.fill]
    split <;> rfl
  | commit =>
    by_cases hpending : queue.writer.hasPending = true
    · refine Or.inr ⟨hpending, queue.ring.load queue.writer.pendingSeq, ?_⟩
      simp only [WriterOp.ringStep, RingSystem.step, commit_of_pending hpending]
    · refine Or.inl ⟨hpending, ?_⟩
      simp only [WriterOp.ringStep, RingSystem.step, commit_of_not_pending hpending]
  | write action => exact Or.inr ⟨trivial, action, rfl⟩

theorem effect_writer (s : System) (n : Nat) (op : WriterOp) :
    Effect s (s.writer n op) (.writer n op) := by
  have hsegments : (s.writer n op).segments = s.stepAt n op.ringStep := rfl
  cases hsegment : s.segments[n]? with
  | none =>
    have hnone : ∀ segment, s.segments[n]? ≠ some segment := by
      intro segment hfound
      rw [hsegment] at hfound
      cases hfound
    refine .quiet _ ?_ rfl rfl rfl (shownAt_stepAt hsegments ?_)
    · intro segment hfound
      exact absurd hfound (hnone segment)
    · intro segment hfound
      exact absurd hfound (hnone segment)
  | some segment =>
    rcases log_writerOp segment.queue op with ⟨hnot, hlog⟩ | ⟨hcommits, action, hlog⟩
    · refine .quiet _ ?_ rfl rfl rfl (shownAt_stepAt hsegments ?_)
      · intro found hfound hcommits
        rw [hsegment] at hfound
        cases hfound
        exact absurd hcommits hnot
      · intro found hfound
        rw [hsegment] at hfound
        cases hfound
        exact hlog
    · refine .committed n op segment action hsegment hcommits rfl rfl rfl fun m => ?_
      rw [shownAt, hsegments, getElem?_stepAt, shownAt, Option.map_map]
      by_cases hm : m = n
      · rw [if_pos hm, hm, hsegment, Option.map_some, Function.comp_apply, if_pos rfl, Segment.step,
          hlog]
      · rw [if_neg hm]
        simp only [if_neg (Ne.symm hm), Function.comp_def]

theorem effect_create (s : System) (addr : String) (capacity : UInt64) :
    Effect s (s.create addr capacity) (.create addr capacity) := by
  rcases s.create_cases addr capacity with hsame | ⟨ring, writer, due, -, hcreate, hzero⟩
  · rw [hsame]
    exact .quiet _ trivial rfl rfl rfl fun _ => rfl
  · rw [hcreate]
    refine .created addr capacity due rfl rfl rfl hzero fun n => ?_
    rw [shownAt, getElem?_concat, shownAt]
    split <;> rfl

theorem shownAt_addSucceeded {addr : String} {n : Nat} {queue : RingSystem Action} {source : Nat}
    {startup : Option (List String)} (m : Nat) :
    (s.addSucceeded addr n queue source startup).shownAt m = (s.shownAt m).map fun (due, log) =>
      (if (s.segments[m]?).any fun segment => segment.addr = addr then some (due.getD log.length)
        else due, log) := by
  rw [shownAt, System.addSucceeded, List.getElem?_map, getElem?_stepAt, shownAt]
  cases s.segments[m]? with
  | none => rfl
  | some segment =>
    have hlog : (segment.queue.step (.connect source)).log = segment.queue.log := connect_log _ _
    simp only [Option.map_some, Option.any_some, decide_eq_true_eq, Segment.added]
    by_cases hn : n = m
    · by_cases haddr : segment.addr = addr <;> simp [hn, haddr, Segment.step, hlog]
    · by_cases haddr : segment.addr = addr <;> simp [hn, haddr]

theorem effect_attempt (hsources : s.ctx.rapidSources.length = s.mapped.length)
    (hstarts : s.starts.length = s.mapped.length) : Effect s s.attempt .attempt := by
  rcases s.attempt_cases with hsame | ⟨-, phase, -, hafter⟩ |
    ⟨-, addr, n, queue, startup, hqueue, -, hafter⟩
  · rw [hsame]
    exact .quiet _ trivial rfl rfl rfl fun _ => rfl
  · rw [hafter]
    exact .quiet _ trivial rfl rfl rfl fun _ => rfl
  · rw [hafter]
    refine .added n queue hqueue ?_ ?_ (fun _ _ _ => reads_addSucceeded hstarts) _
      shownAt_addSucceeded
    · simp only [System.addSucceeded, ActorContext.readFrom, if_true, List.length_append,
        List.length_singleton, hsources]
    · simp only [System.addSucceeded, List.length_append, List.length_singleton, hstarts]

theorem effect_poll (s : System) (input : PollInput) : Effect s (s.poll input) (.poll input) := by
  rcases s.poll_cases input with hsame | ⟨-, phase, -, hafter⟩ | ⟨-, source, n, seq, -, hafter⟩
  · rw [hsame]
    exact .quiet _ trivial rfl rfl rfl fun _ => rfl
  · rw [hafter]
    exact .quiet _ trivial rfl rfl rfl fun _ => rfl
  · rw [hafter]
    refine .quiet _ trivial rfl rfl rfl (shownAt_stepAt rfl ?_)
    intro segment _
    exact tryRead_log segment.queue source

theorem effect_handle (s : System) (accepted : Bool) :
    Effect s (s.handle accepted) (.handle accepted) := by
  unfold System.handle
  split
  · split
    · split
      · exact .quiet _ trivial rfl rfl rfl fun _ => rfl
      · split
        · exact .quiet _ trivial rfl rfl rfl fun _ => rfl
        · exact .quiet _ trivial rfl rfl rfl fun _ => rfl
    · exact .quiet _ trivial rfl rfl rfl fun _ => rfl
  · exact .quiet _ trivial rfl rfl rfl fun _ => rfl

theorem step_effect (hsources : s.ctx.rapidSources.length = s.mapped.length)
    (hstarts : s.starts.length = s.mapped.length) (i : Step) : Effect s (s.step i) i := by
  cases i with
  | create addr capacity => exact effect_create s addr capacity
  | unlink addr => exact .quiet _ trivial rfl rfl rfl fun _ => rfl
  | writer n op => exact effect_writer s n op
  | attempt => exact effect_attempt hsources hstarts
  | poll input => exact effect_poll s input
  | handle accepted => exact effect_handle s accepted

/-- A source that comes later starts at the end of its queue. -/
theorem Effect.reads (he : Effect s s' i) {j n start : Nat} (hr : s'.Reads j n start) :
    s.Reads j n start ∨ ∃ queue, s.queueAt n = some queue ∧ start = queue.log.length := by
  cases he with
  | quiet _ guard ctx mapped starts shown => exact Or.inl ((reads_congr mapped starts).mp hr)
  | created addr capacity due ctx mapped starts zero shown =>
    exact Or.inl ((reads_congr mapped starts).mp hr)
  | committed m op segment action found commits ctx mapped starts shown =>
    exact Or.inl ((reads_congr mapped starts).mp hr)
  | added m queue found sources starts reads marks shown =>
    rcases (reads j n start).mp hr with hr | ⟨-, rfl, rfl⟩
    · exact Or.inl hr
    · exact Or.inr ⟨queue, found, rfl⟩

theorem Effect.reads_of_reads (he : Effect s s' i) {j n start : Nat} (hr : s.Reads j n start) :
    s'.Reads j n start := by
  cases he with
  | quiet _ guard ctx mapped starts shown => exact (reads_congr mapped starts).mpr hr
  | created addr capacity due ctx mapped starts zero shown =>
    exact (reads_congr mapped starts).mpr hr
  | committed m op segment action found commits ctx mapped starts shown =>
    exact (reads_congr mapped starts).mpr hr
  | added m queue found sources starts reads marks shown => exact (reads j n start).mpr (Or.inl hr)

/-- Nothing changes about who takes what has been committed. -/
theorem Effect.takes_iff (he : Effect s s' i) {n : Nat} {due : Option Nat} {log : List Action}
    (hshown : s.shownAt n = some (due, log)) {k : Nat} (hk : k < log.length) (j : Nat) :
    s'.Takes j n k ↔ s.Takes j n k := by
  constructor
  · intro htakes
    obtain ⟨start, hr, hle⟩ := htakes
    rcases he.reads hr with hr | ⟨queue, hqueue, rfl⟩
    · exact ⟨start, hr, hle⟩
    · obtain ⟨segment, hsegment, rfl⟩ := Option.map_eq_some_iff.mp hqueue
      rw [shownAt_of_segment hsegment] at hshown
      cases hshown
      exact absurd hle (Nat.not_le_of_lt hk)
  · intro htakes
    obtain ⟨start, hr, hle⟩ := htakes
    exact ⟨start, he.reads_of_reads hr, hle⟩

/-- A log only grows, and what is due stays due. -/
theorem Effect.grows (he : Effect s s' i) {n : Nat} {due : Option Nat} {log : List Action}
    (hshown : s.shownAt n = some (due, log)) :
    ∃ due' log', s'.shownAt n = some (due', log') ∧ log.length ≤ log'.length ∧
      ∀ start, due = some start → due' = some start := by
  cases he with
  | quiet _ guard ctx mapped starts shown =>
    exact ⟨due, log, (shown n).trans hshown, Nat.le_refl _, fun _ hdue => hdue⟩
  | created addr capacity due₀ ctx mapped starts zero shown =>
    have hne : n ≠ s.segments.length := by
      obtain ⟨segment, hsegment, -⟩ := Option.map_eq_some_iff.mp hshown
      exact Nat.ne_of_lt (List.getElem?_eq_some_iff.mp hsegment).1
    exact ⟨due, log, by rw [shown, if_neg hne, hshown], Nat.le_refl _, fun _ hdue => hdue⟩
  | committed m op segment action found commits ctx mapped starts shown =>
    by_cases hn : n = m
    · rw [hn, shownAt_of_segment found] at hshown
      cases hshown
      refine ⟨segment.due, _, by rw [shown, if_pos hn], ?_, fun _ hdue => hdue⟩
      rw [List.length_append]
      exact Nat.le_add_right _ _
    · exact ⟨due, log, by rw [shown, if_neg hn, hshown], Nat.le_refl _, fun _ hdue => hdue⟩
  | added m queue found sources starts reads marks shown =>
    refine ⟨_, log, by rw [shown, hshown, Option.map_some], Nat.le_refl _, ?_⟩
    intro start hdue
    rw [hdue]
    split <;> rfl

theorem due_of_marked {before : Option (Option Nat × List Action)} {mark : Bool} {due : Nat}
    {log : List Action}
    (h : before.map (fun (due, log) => (if mark then some (due.getD log.length) else due, log)) =
      some (some due, log)) : due = log.length ∨ before = some (some due, log) := by
  obtain ⟨⟨due', log'⟩, rfl, hpair⟩ := Option.map_eq_some_iff.mp h
  injection hpair with hdue hlog
  subst hlog
  cases mark with
  | false =>
    have hsame : due' = some due := hdue
    exact Or.inr (by rw [hsame])
  | true =>
    cases due' with
    | none => exact Or.inl (Option.some.inj hdue).symm
    | some start => exact Or.inr (congrArg (fun due => some (some due, log')) (Option.some.inj hdue))

/-- A queue that is due was so before, with at most one commit less, or is so from
its end on. -/
theorem Effect.due_cases (he : Effect s s' i) {n due : Nat} {log : List Action}
    (hshown : s'.shownAt n = some (some due, log)) :
    due = log.length ∨ s.shownAt n = some (some due, log) ∨
      ∃ op segment, i = .writer n op ∧ s.segments[n]? = some segment ∧ Commits segment.queue op ∧
        segment.due = some due ∧ log.length = segment.queue.log.length + 1 ∧
        s'.mapped = s.mapped ∧ s'.starts = s.starts := by
  cases he with
  | quiet _ guard ctx mapped starts shown => exact Or.inr (Or.inl ((shown n).symm.trans hshown))
  | created addr capacity due₀ ctx mapped starts zero shown =>
    rw [shown] at hshown
    split at hshown
    · injection hshown with hpair
      injection hpair with hdue hlog
      rw [zero due hdue, ← hlog]
      exact Or.inl rfl
    · exact Or.inr (Or.inl hshown)
  | committed m op segment action found commits ctx mapped starts shown =>
    rw [shown] at hshown
    split at hshown
    · rename_i hn
      injection hshown with hpair
      injection hpair with hdue hlog
      rw [← hlog, hn]
      exact Or.inr (Or.inr ⟨op, segment, rfl, found, commits, hdue, List.length_append, mapped,
        starts⟩)
    · exact Or.inr (Or.inl hshown)
  | added m queue found sources starts reads marks shown =>
    rw [shown] at hshown
    rcases due_of_marked hshown with hend | hbefore
    · exact Or.inl hend
    · exact Or.inr (Or.inl hbefore)

theorem takes_congr (hmapped : s'.mapped = s.mapped) (hstarts : s'.starts = s.starts) {j n k : Nat} :
    s'.Takes j n k ↔ s.Takes j n k :=
  exists_congr fun _ => and_congr_left fun _ => reads_congr hmapped hstarts

end Effects

end System

end Nnxt.TradeGatewayRunner
