import Nnxt.TradeGatewayRunner
import Nnxt.RingLog

/-!
# What the sources of the gateway have taken

Each source has taken the entries of its queue from where its reader started up
to its cursor, each of them once. Two sources of one queue take the same entries.
-/

namespace Nnxt.TradeGatewayRunner

set_option autoImplicit false

open HashMap RingSystem

section Queue
variable {queue : RingSystem Action} {reader : Nat}

theorem readers_writerOp (op : WriterOp) : (queue.step op.ringStep).readers = queue.readers := by
  cases op with
  | prepare => rfl
  | fill action =>
    simp only [WriterOp.ringStep, RingSystem.step, RingSystem.fill]
    split <;> rfl
  | commit => rfl
  | write action => rfl

theorem cursor_writerOp (op : WriterOp) : (queue.step op.ringStep).cursor = queue.cursor := by
  cases op with
  | prepare => rfl
  | fill action =>
    simp only [WriterOp.ringStep, RingSystem.step, RingSystem.fill]
    split <;> rfl
  | commit =>
    simp only [WriterOp.ringStep, RingSystem.step, RingSystem.commit, Ring.commit]
    split <;> rfl
  | write action => rfl

/-- Within the capacity a poll hands out the entry at the cursor. -/
theorem polled_some (h : queue.Inv) (hnear : System.Unlapped queue reader) {seq : UInt64}
    (hp : polled queue reader = some seq) :
    queue.cursor reader = some seq.toNat ∧ seq.toNat < queue.log.length ∧
      (queue.step (.tryRead reader)).cursor =
        Function.update queue.cursor reader (some (seq.toNat + 1)) := by
  obtain ⟨slot, hr, hseq⟩ := Option.bind_eq_some_iff.mp hp
  rcases h.caughtUp_or_behind hr with hc | hb
  · rw [Ring.tryRead_caughtUp hc] at hseq
    cases hseq
  · rw [Ring.tryRead_behind hb] at hseq
    cases hseq
    have hlag := (hnear _ (cursor_of_some hr)).1
    have hle := h.cursors.cursor_le reader slot hr
    have hserved : (queue.ring.served slot).toNat = (queue.ring.readSeq slot).toNat := by
      rw [RingLog.nextPosition_served h hr, CursorLog.nextPosition]
      omega
    refine ⟨by rw [hserved, cursor_of_some hr], h.served_lt hr hb, ?_⟩
    have hstep : queue.step (.tryRead reader) = queue.advance reader slot := by
      simp only [RingSystem.step, hr, Ring.tryRead_behind hb, RingSystem.advance]
    rw [hstep, h.cursor_advance hr hb]

/-- A source without data has read everything. -/
theorem polled_none (h : queue.Inv) {c : Nat} (hc : queue.cursor reader = some c)
    (hp : polled queue reader = none) : c = queue.log.length := by
  obtain ⟨slot, hr, rfl⟩ := Option.map_eq_some_iff.mp hc
  rcases h.caughtUp_or_behind hr with hcaught | hb
  · rw [hcaught, h.stored.writeSeq]
  · rw [polled, hr, Option.bind_some, Ring.tryRead_behind hb] at hp
    cases hp

theorem connect_readers (hcan : canConnect queue = true) (hnone : queue.readers reader = none) :
    ∃ ring slot, queue.ring.connect = .ok (ring, slot) ∧
      queue.step (.connect reader) = queue.withReader ring reader (some slot) := by
  unfold canConnect at hcan
  cases hconnect : queue.ring.connect with
  | error error =>
    rw [hconnect] at hcan
    cases hcan
  | ok taken =>
    obtain ⟨ring, slot⟩ := taken
    refine ⟨ring, slot, rfl, ?_⟩
    simp only [RingSystem.step, RingSystem.connect, hnone, hconnect]

/-- A new reader starts at the end of the queue and moves no other cursor. -/
theorem connect_cursor (h : queue.Inv) (hcan : canConnect queue = true)
    (hnone : queue.readers reader = none) :
    (queue.step (.connect reader)).cursor =
      Function.update queue.cursor reader (some queue.log.length) := by
  obtain ⟨ring, slot, hconnect, hstep⟩ := connect_readers hcan hnone
  obtain ⟨hlt, hfree, rfl⟩ := queue.ring.connect_ok hconnect
  rw [hstep]
  exact h.cursor_attach reader hlt hfree

end Queue

theorem getElem?_concat {α : Type} (l : List α) (a : α) (m : Nat) :
    (l ++ [a])[m]? = if m = l.length then some a else l[m]? := by
  rcases Nat.lt_trichotomy m l.length with hlt | heq | hgt
  · rw [List.getElem?_append_left hlt, if_neg (Nat.ne_of_lt hlt)]
  · rw [heq, List.getElem?_concat_length, if_pos rfl]
  · rw [if_neg (Nat.ne_of_gt hgt), List.getElem?_eq_none_iff.mpr (Nat.le_of_lt hgt),
      List.getElem?_eq_none_iff, List.length_append, List.length_singleton]
    exact hgt

theorem getElem?_of_prefix {α : Type} {l l' : List α} (hl : l <+: l') {k : Nat} {a : α}
    (h : l[k]? = some a) : l'[k]? = some a := by
  obtain ⟨later, rfl⟩ := hl
  rw [List.getElem?_append_left (List.getElem?_eq_some_iff.mp h).1]
  exact h

def Phase.inHand : Phase → List (Nat × Nat)
  | .handling source seq => [(source, seq.toNat)]
  | _ => []

namespace System

section Segments
variable {s s' : System} {n : Nat} {i : RingStep Action}

theorem getElem?_stepAt (s : System) (n : Nat) (i : RingStep Action) (m : Nat) :
    (s.stepAt n i)[m]? =
      (s.segments[m]?).map fun segment => if n = m then segment.step i else segment :=
  List.getElem?_modify _ _ _ _

theorem queueAt_of_segment {segment : Segment} (h : s.segments[n]? = some segment) :
    s.queueAt n = some segment.queue := by
  rw [queueAt, h, Option.map_some]

theorem queueAt_stepAt (h : s'.segments = s.stepAt n i) (m : Nat) :
    s'.queueAt m = (s.queueAt m).map fun queue => if n = m then queue.step i else queue := by
  rw [queueAt, h, getElem?_stepAt, queueAt, Option.map_map, Option.map_map]
  refine congrArg (Option.map · s.segments[m]?) (funext fun segment => ?_)
  simp only [Function.comp_apply]
  split <;> rfl

theorem queueAt_stepAt_self (h : s'.segments = s.stepAt n i) {queue : RingSystem Action}
    (hqueue : s.queueAt n = some queue) : s'.queueAt n = some (queue.step i) := by
  rw [queueAt_stepAt h, hqueue, Option.map_some, if_pos rfl]

theorem queueAt_stepAt_ne (h : s'.segments = s.stepAt n i) {m : Nat} (hne : n ≠ m) :
    s'.queueAt m = s.queueAt m := by
  rw [queueAt_stepAt h]
  simp only [if_neg hne, Option.map_id_fun', id_eq]

theorem queueAt_concat {segment : Segment} (h : s'.segments = s.segments ++ [segment]) (m : Nat) :
    s'.queueAt m = if m = s.segments.length then some segment.queue else s.queueAt m := by
  rw [queueAt, h, getElem?_concat]
  split <;> rfl

theorem few_iff : (∀ segment ∈ s.segments, segment.queue.log.length < 2 ^ 64) ↔
    ∀ n queue, s.queueAt n = some queue → queue.log.length < 2 ^ 64 := by
  constructor
  · intro h n queue hqueue
    obtain ⟨segment, hsegment, rfl⟩ := Option.map_eq_some_iff.mp hqueue
    exact h segment (List.mem_of_getElem? hsegment)
  · intro h segment hmem
    obtain ⟨n, hsegment⟩ := List.mem_iff_getElem?.mp hmem
    exact h n segment.queue (queueAt_of_segment hsegment)

end Segments

/-- What the sources have taken: given to `on_action`, or still in hand. -/
def taken (s : System) : List (Nat × Nat) :=
  s.executed.map (fun call => (call.source, call.seq.toNat)) ++ s.phase.inHand

def CursorAt (s : System) (i n c : Nat) : Prop :=
  ∃ queue, s.queueAt n = some queue ∧ queue.cursor i = some c

/-- Each source has taken what lies between its start and its cursor, once. -/
structure Inv (s : System) : Prop where
  rings : ∀ n queue, s.queueAt n = some queue → queue.Inv
  fresh : ∀ n queue, s.queueAt n = some queue → ∀ i, s.mapped.length ≤ i → queue.readers i = none
  sources : s.ctx.rapidSources.length = s.mapped.length
  starts : s.starts.length = s.mapped.length
  reading : ∀ i n start, s.Reads i n start → ∃ c, s.CursorAt i n c ∧ start ≤ c
  known : ∀ i, i < s.mapped.length → i ∈ s.actionSources
  taken : ∀ i k, (i, k) ∈ s.taken ↔
    ∃ n start c, s.Reads i n start ∧ s.CursorAt i n c ∧ start ≤ k ∧ k < c
  once : s.taken.Nodup
  calls : ∀ call ∈ s.executed, (∃ start, s.Reads call.source call.queue start) ∧
    ∃ queue, s.queueAt call.queue = some queue ∧ queue.log[call.seq.toNat]? = some call.action

section Frame
variable {s s' : System}

/-- What a step leaves alone that neither adds a source nor reads from one. -/
structure Framed (s s' : System) : Prop where
  ctx : s'.ctx = s.ctx
  mapped : s'.mapped = s.mapped
  starts : s'.starts = s.starts
  actionSources : s'.actionSources = s.actionSources
  taken : s'.taken = s.taken
  executed : s'.executed = s.executed
  rings : ∀ n queue, s'.queueAt n = some queue →
    queue.Inv ∧ ∀ i, s.mapped.length ≤ i → queue.readers i = none
  queues : ∀ n queue, s.queueAt n = some queue →
    ∃ queue', s'.queueAt n = some queue' ∧ queue'.cursor = queue.cursor ∧
      queue.log <+: queue'.log

theorem reads_congr (hmapped : s'.mapped = s.mapped) (hstarts : s'.starts = s.starts)
    {i n start : Nat} : s'.Reads i n start ↔ s.Reads i n start := by
  rw [Reads, Reads, hmapped, hstarts]

theorem Reads.unique {i n n' start start' : Nat} (h : s.Reads i n start)
    (h' : s.Reads i n' start') : n = n' ∧ start = start' :=
  ⟨Option.some.inj (h.1.symm.trans h'.1), Option.some.inj (h.2.symm.trans h'.2)⟩

theorem CursorAt.unique {i n c c' : Nat} (h : s.CursorAt i n c) (h' : s.CursorAt i n c') :
    c = c' := by
  obtain ⟨queue, hqueue, hc⟩ := h
  obtain ⟨queue', hqueue', hc'⟩ := h'
  rw [hqueue] at hqueue'
  cases hqueue'
  exact Option.some.inj (hc.symm.trans hc')

/-- Every source reads the queue it has mapped from somewhere on. -/
theorem Inv.reads_mapped (h : s.Inv) {i n : Nat} (hmapped : s.mapped[i]? = some n) :
    ∃ start, s.Reads i n start := by
  have hindex := (List.getElem?_eq_some_iff.mp hmapped).1
  rw [← h.starts] at hindex
  exact ⟨s.starts[i], hmapped, List.getElem?_eq_getElem hindex⟩

theorem Reads.lt {i n start : Nat} (hr : s.Reads i n start) : i < s.mapped.length :=
  (List.getElem?_eq_some_iff.mp hr.1).1

theorem Framed.cursorAt_iff (hf : Framed s s') {n : Nat} (hsome : s.queueAt n ≠ none) {i c : Nat} :
    s'.CursorAt i n c ↔ s.CursorAt i n c := by
  obtain ⟨queue, hqueue⟩ := Option.ne_none_iff_exists'.mp hsome
  obtain ⟨queue', hqueue', hcursor, -⟩ := hf.queues n queue hqueue
  unfold CursorAt
  rw [hqueue, hqueue']
  simp only [Option.some.injEq, exists_eq_left', hcursor]

theorem CursorAt.queueAt_ne_none {i n c : Nat} (h : s.CursorAt i n c) : s.queueAt n ≠ none := by
  obtain ⟨queue, hqueue, -⟩ := h
  rw [hqueue]
  exact Option.some_ne_none queue

theorem Inv.framed (h : s.Inv) (hf : Framed s s') : s'.Inv where
  rings := fun n queue hqueue => (hf.rings n queue hqueue).1
  fresh := by
    intro n queue hqueue i hi
    rw [hf.mapped] at hi
    exact (hf.rings n queue hqueue).2 i hi
  sources := by rw [hf.ctx, hf.mapped, h.sources]
  starts := by rw [hf.mapped, hf.starts, h.starts]
  reading := by
    intro i n start hr
    obtain ⟨c, hc, hle⟩ := h.reading i n start ((reads_congr hf.mapped hf.starts).mp hr)
    exact ⟨c, (hf.cursorAt_iff hc.queueAt_ne_none).mpr hc, hle⟩
  known := by
    rw [hf.mapped, hf.actionSources]
    exact h.known
  taken := by
    intro i k
    rw [hf.taken, h.taken]
    refine exists₃_congr fun n start c => ?_
    rw [reads_congr hf.mapped hf.starts]
    refine and_congr_right fun hr => ?_
    obtain ⟨_, hc, _⟩ := h.reading i n start hr
    rw [hf.cursorAt_iff hc.queueAt_ne_none]
  once := by
    rw [hf.taken]
    exact h.once
  calls := by
    intro call hcall
    rw [hf.executed] at hcall
    obtain ⟨⟨start, hr⟩, queue, hqueue, hvalue⟩ := h.calls call hcall
    obtain ⟨queue', hqueue', -, hlog⟩ := hf.queues _ _ hqueue
    refine ⟨⟨start, (reads_congr hf.mapped hf.starts).mpr hr⟩, queue', hqueue', ?_⟩
    exact getElem?_of_prefix hlog hvalue

/-- A step that only changes names and the phase, takes nothing in hand and drops nothing. -/
theorem Inv.withPhase (h : s.Inv) {names : Map String Nat} {phase : Phase}
    (hphase : phase.inHand = s.phase.inHand) :
    ({ s with names := names, phase := phase } : System).Inv := by
  apply h.framed
  refine ⟨rfl, rfl, rfl, rfl, ?_, rfl, ?_, ?_⟩
  · rw [System.taken, hphase]
    rfl
  · intro n queue hqueue
    exact ⟨h.rings n queue hqueue, h.fresh n queue hqueue⟩
  · intro n queue hqueue
    exact ⟨queue, hqueue, rfl, List.prefix_refl _⟩

theorem Inv.writer (h : s.Inv) (n : Nat) (op : WriterOp)
    (hfew : ∀ segment ∈ (s.writer n op).segments, segment.queue.log.length < 2 ^ 64) :
    (s.writer n op).Inv := by
  have hsegments : (s.writer n op).segments = s.stepAt n op.ringStep := rfl
  apply h.framed
  refine ⟨rfl, rfl, rfl, rfl, rfl, rfl, ?_, ?_⟩
  · intro m queue' hqueue'
    have hlen := few_iff.mp hfew m queue' hqueue'
    rw [queueAt_stepAt hsegments] at hqueue'
    obtain ⟨queue, hqueue, heq⟩ := Option.map_eq_some_iff.mp hqueue'
    split at heq
    · rw [← heq] at hlen ⊢
      refine ⟨(h.rings m queue hqueue).step _ hlen, ?_⟩
      rw [readers_writerOp]
      exact h.fresh m queue hqueue
    · rw [← heq]
      exact ⟨h.rings m queue hqueue, h.fresh m queue hqueue⟩
  · intro m queue hqueue
    rw [queueAt_stepAt hsegments, hqueue, Option.map_some]
    refine ⟨_, rfl, ?_⟩
    split
    · exact ⟨cursor_writerOp op, log_prefix_step _ _⟩
    · exact ⟨rfl, List.prefix_refl _⟩

theorem create_cases (s : System) (addr : String) (capacity : UInt64) :
    s.create addr capacity = s ∨
      ∃ ring writer due, Ring.create capacity defaultMaxReaders Action.zeroed = .ok (ring, writer) ∧
        s.create addr capacity =
          { s with
            names := s.names.insert addr s.segments.length
            segments := s.segments ++ [⟨addr, RingSystem.start ring writer, due⟩] } ∧
        ∀ start, due = some start → start = 0 := by
  unfold System.create
  split
  · rename_i ring writer _ hnone hring
    refine Or.inr ⟨ring, writer, _, hring, rfl, ?_⟩
    intro start hstart
    split at hstart
    · exact (Option.some.inj hstart).symm
    · cases hstart
  · exact Or.inl rfl

theorem queueAt_lt {n : Nat} {queue : RingSystem Action} (h : s.queueAt n = some queue) :
    n < s.segments.length := by
  obtain ⟨segment, hsegment, -⟩ := Option.map_eq_some_iff.mp h
  exact (List.getElem?_eq_some_iff.mp hsegment).1

theorem Inv.create (h : s.Inv) (addr : String) (capacity : UInt64) : (s.create addr capacity).Inv := by
  rcases s.create_cases addr capacity with hsame | ⟨ring, writer, due, hring, hcreate, -⟩
  · rw [hsame]
    exact h
  · have hsegments := congrArg System.segments hcreate
    have hqueues := fun m => queueAt_concat hsegments m
    rw [hcreate] at hqueues ⊢
    apply h.framed
    refine ⟨rfl, rfl, rfl, rfl, rfl, rfl, ?_, ?_⟩
    · intro m queue hqueue
      rw [hqueues] at hqueue
      split at hqueue
      · cases hqueue
        exact ⟨inv_start hring, fun _ _ => rfl⟩
      · exact ⟨h.rings m queue hqueue, h.fresh m queue hqueue⟩
    · intro m queue hqueue
      refine ⟨queue, ?_, rfl, List.prefix_refl _⟩
      rw [hqueues, if_neg (Nat.ne_of_lt (queueAt_lt hqueue))]
      exact hqueue

theorem Inv.unlink (h : s.Inv) (addr : String) : (s.unlink addr).Inv :=
  h.withPhase rfl

end Frame

end System

end Nnxt.TradeGatewayRunner
