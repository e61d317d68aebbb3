import Mathlib.Algebra.Order.BigOperators.Group.List
import Mathlib.Algebra.Order.Group.Nat
import Nnxt.ReactorDrain

/-!
# How long a source waits for those before it

A poll answers from the first source that has anything, so a source can starve while
earlier ones are fed. What it is passed over for is bounded by what waited on the
earlier sources and what has been written to them since.
-/

namespace Nnxt

set_option autoImplicit false

section Readers
variable {T : Type}

/-- The reader that makes the step; `none` for a step of the writer. -/
def RingStep.reader : RingStep T → Option Nat
  | .prepare | .fill _ | .commit | .write _ => none
  | .connect reader | .tryRead reader | .read reader _ | .readTimeout reader _ _
  | .drop reader => some reader

namespace RingSystem
variable {s : RingSystem T} {reader other : Nat}

theorem Inv.cursor_outcome (h : s.Inv) {s' : RingSystem T} (ho : ReadOutcome s other s')
    (hne : reader ≠ other) : s'.cursor reader = s.cursor reader := by
  cases ho with
  | nothing hs => rw [hs]
  | entry slot hr hb hs => rw [hs, h.cursor_advance hr hb, Function.update_of_ne hne]

/-- Nobody moves the cursor of another reader. -/
theorem Inv.cursor_step (h : s.Inv) {call : RingStep T} (hcall : call.reader ≠ some reader) :
    (s.step call).cursor reader = s.cursor reader := by
  have hne : ∀ {other : Nat}, call.reader = some other → reader ≠ other := by
    rintro other hother rfl
    exact hcall hother
  cases call with
  | prepare => rfl
  | fill value =>
    simp only [RingSystem.step, RingSystem.fill]
    split <;> rfl
  | commit =>
    simp only [RingSystem.step, RingSystem.commit, Ring.commit]
    split <;> rfl
  | write value => rfl
  | connect other =>
    simp only [RingSystem.step, RingSystem.connect]
    split
    · rename_i ring slot _ hok
      obtain ⟨hlt, hfree, rfl⟩ := s.ring.connect_ok hok
      rw [h.cursor_attach other hlt hfree, Function.update_of_ne (hne rfl)]
    · rfl
  | tryRead other => exact h.cursor_outcome (h.tryRead_outcome other) (hne rfl)
  | read other passes =>
    cases passes with
    | zero => rw [step_read_zero]
    | succ passes => exact h.cursor_outcome (h.read_outcome other passes) (hne rfl)
  | readTimeout other timeout elapsed =>
    cases elapsed with
    | nil => rw [step_readTimeout_nil]
    | cons e later =>
      exact h.cursor_outcome (h.readTimeout_outcome other timeout e later) (hne rfl)
  | drop other =>
    simp only [RingSystem.step]
    split
    · rfl
    · rename_i slot hr
      rw [h.cursor_detach hr, Function.update_of_ne (hne rfl)]

theorem Inv.toNat_lag (h : s.Inv) (slot : Nat) :
    (s.ring.lag slot).toNat = s.log.length - (s.ring.readSeq slot).toNat := by
  rw [Ring.lag, FixedWidth.toNat_saturatingSub, h.stored.writeSeq]

end RingSystem

end Readers

namespace Polling

open Transition

variable {T E : Type}

/-- What other processes do to a queue, and what the actor does. -/
inductive Move (T E : Type) where
  | queue (queue : Nat) (call : RingStep T)
  | addReader (queue : Nat)
  | poll (input : PollInput E)

namespace Reactor

def move (r : Reactor T E) : Move T E → Reactor T E
  | .queue queue call => { r with queues := r.queues.modify queue fun ring => ring.step call }
  | .addReader queue => (r.addRapidReader queue).1
  | .poll input => (r.step input).1

end Reactor

/-- `Reader::lag` of the reader behind a source. -/
def RapidSource.lag (source : RapidSource) (queues : List (RingSystem T)) : Nat :=
  match queues[source.queue]? with
  | none => 0
  | some queue => ((queue.readers source.sourceId).map fun slot => (queue.ring.lag slot).toNat).getD 0

/-- Where the reader of a source stands. -/
def RapidSource.position (source : RapidSource) (queues : List (RingSystem T)) : Nat :=
  match queues[source.queue]? with
  | none => 0
  | some queue => (queue.cursor source.sourceId).getD queue.log.length

def committed (queues : List (RingSystem T)) (queue : Nat) : Nat :=
  match queues[queue]? with
  | none => 0
  | some queue => queue.log.length

/-- Other processes do not read under the ids of the sources. -/
def Foreign (sources : List RapidSource) : Move T E → Prop
  | .queue _ call => ∀ source ∈ sources, call.reader ≠ some source.sourceId
  | _ => True

instance (sourceId : Nat) (event : Option (Event T E)) : Decidable (Event.IsData sourceId event) := by
  unfold Event.IsData
  split <;> infer_instance

instance (sources : List RapidSource) (i : Move T E) : Decidable (Foreign sources i) := by
  unfold Foreign
  split <;> infer_instance

theorem Foreign.mono {sources others : List RapidSource} {i : Move T E} (h : Foreign others i)
    (hsub : ∀ source ∈ sources, source ∈ others) : Foreign sources i := by
  cases i with
  | queue k call => exact fun source hsource => h source (hsub source hsource)
  | addReader k => trivial
  | poll input => trivial

/-- A poll that finds something unread at the source and answers with something else. -/
def PassesOver (source : RapidSource) (r : Reactor T E) : Move T E → Prop
  | .poll input => input.shutdown = false ∧ 0 < source.lag r.queues ∧
      ¬ Event.IsData source.sourceId (r.step input).2
  | _ => False

instance (source : RapidSource) (r : Reactor T E) (i : Move T E) :
    Decidable (PassesOver source r i) := by
  unfold PassesOver
  split <;> infer_instance

def passedOver (source : RapidSource) : Reactor T E → List (Move T E) → Nat :=
  countAlong Reactor.move (PassesOver source)

def Few (r : Reactor T E) : Prop := ∀ queue ∈ r.queues, queue.log.length < 2 ^ 64

instance (r : Reactor T E) : Decidable (Few r) :=
  inferInstanceAs (Decidable (∀ queue ∈ r.queues, _))

/-- The ids are the places in the list, and every queue keeps its own invariant. -/
structure Ordered (r : Reactor T E) : Prop where
  numbered : Numbered r
  rings : ∀ queue ∈ r.queues, queue.Inv

section Source
variable {queues : List (RingSystem T)} {source : RapidSource}

theorem lag_add_position (hrings : ∀ queue ∈ queues, queue.Inv) (source : RapidSource) :
    source.lag queues + source.position queues = committed queues source.queue := by
  unfold RapidSource.lag RapidSource.position committed
  cases hqueue : queues[source.queue]? with
  | none => rfl
  | some queue =>
    have hinv := hrings queue (List.mem_of_getElem? hqueue)
    dsimp only
    cases hslot : queue.readers source.sourceId with
    | none =>
      rw [RingSystem.cursor_of_none hslot, Option.map_none, Option.getD_none, Option.getD_none,
        Nat.zero_add]
    | some slot =>
      have hle := hinv.cursors.cursor_le _ _ hslot
      rw [RingSystem.cursor_of_some hslot, Option.map_some, Option.getD_some, Option.getD_some,
        hinv.toNat_lag]
      omega

/-- What a poll of one source does: nothing, if nothing waits there. -/
inductive SourcePolled (queues : List (RingSystem T)) (source : RapidSource)
    (after : List (RingSystem T) × Option (Event T E)) : Prop where
  | nothing (empty : source.lag queues = 0) (same : after = (queues, none))
  | handed (waiting : 0 < source.lag queues) (event : Event T E) (answer : after.2 = some event)
      (data : Event.IsData source.sourceId after.2)
      (rings : ∀ queue ∈ after.1, queue.Inv)
      (moved : source.position queues < source.position after.1)
      (others : ∀ other : RapidSource, other.sourceId ≠ source.sourceId →
        other.position after.1 = other.position queues)

theorem position_set {queue queue' : RingSystem T} {k : Nat} (hqueue : queues[k]? = some queue)
    (hlog : queue'.log = queue.log)
    (hcursor : source.queue = k → queue'.cursor source.sourceId = queue.cursor source.sourceId) :
    source.position (queues.set k queue') = source.position queues := by
  unfold RapidSource.position
  by_cases hk : k = source.queue
  · subst hk
    rw [List.getElem?_set_self (List.getElem?_eq_some_iff.mp hqueue).1, hqueue]
    dsimp only
    rw [hcursor rfl, hlog]
  · rw [List.getElem?_set_ne hk]

theorem sourcePolled (hrings : ∀ queue ∈ queues, queue.Inv) (source : RapidSource) :
    SourcePolled queues source (source.poll queues : List (RingSystem T) × Option (Event T E)) := by
  unfold RapidSource.poll
  cases hqueue : queues[source.queue]? with
  | none => exact .nothing (by rw [RapidSource.lag, hqueue]) rfl
  | some queue =>
    have hinv := hrings queue (List.mem_of_getElem? hqueue)
    obtain ⟨hlt, hget⟩ := List.getElem?_eq_some_iff.mp hqueue
    dsimp only
    cases hslot : queue.readers source.sourceId with
    | none =>
      refine .nothing ?_ rfl
      rw [RapidSource.lag, hqueue]
      dsimp only
      rw [hslot, Option.map_none, Option.getD_none]
    | some slot =>
      have hlag : source.lag queues = queue.log.length - (queue.ring.readSeq slot).toNat := by
        rw [RapidSource.lag, hqueue]
        dsimp only
        rw [hslot, Option.map_some, Option.getD_some, hinv.toNat_lag]
      rcases hinv.caughtUp_or_behind hslot with hcaught | hbehind
      · refine .nothing ?_ ?_
        · rw [hlag, hcaught, hinv.stored.writeSeq, Nat.sub_self]
        · dsimp only
          rw [Ring.tryRead_caughtUp hcaught]
          show (queues.set source.queue queue, none) = (queues, none)
          rw [← hget, List.set_getElem_self]
      · dsimp only
        rw [Ring.tryRead_behind hbehind]
        have hserved := hinv.cursor_advance hslot hbehind
        have hseq := hinv.stored.writeSeq
        rw [UInt64.lt_iff_toNat_lt] at hbehind
        refine .handed (by omega) _ rfl rfl ?_ ?_ ?_
        · intro queue' hqueue'
          rcases List.mem_or_eq_of_mem_set hqueue' with hmem | rfl
          · exact hrings queue' hmem
          · exact hinv.advance hslot (UInt64.lt_iff_toNat_lt.mpr hbehind)
        · show _ < source.position (queues.set source.queue (queue.advance source.sourceId slot))
          have hle := Nat.le_max_left (queue.ring.readSeq slot).toNat
            (queue.ring.writeSeq.toNat - queue.ring.capacity.toNat)
          rw [RapidSource.position, RapidSource.position, List.getElem?_set_self hlt, hqueue]
          dsimp only
          rw [hserved, Function.update_self, RingSystem.cursor_of_some hslot, Option.getD_some,
            Option.getD_some, Ring.toNat_served (Nat.le_of_lt hbehind)]
          omega
        · intro other hother
          show other.position (queues.set source.queue (queue.advance source.sourceId slot)) = _
          refine position_set hqueue rfl fun _ => ?_
          rw [hserved, Function.update_of_ne hother]

/-- The loop over the sources stops at the first that has anything. -/
inductive SourcesPolled (queues : List (RingSystem T)) (sources : List RapidSource)
    (after : List (RingSystem T) × Option (Event T E)) : Prop where
  | nothing (empty : ∀ source ∈ sources, source.lag queues = 0) (same : after = (queues, none))
  | first (before : List RapidSource) (source : RapidSource) (later : List RapidSource)
      (split : sources = before ++ source :: later)
      (empty : ∀ earlier ∈ before, earlier.lag queues = 0)
      (polled : after = source.poll queues) (waiting : 0 < source.lag queues)

theorem sourcesPolled (hrings : ∀ queue ∈ queues, queue.Inv) (sources : List RapidSource) :
    SourcesPolled queues sources
      (pollSources queues sources : List (RingSystem T) × Option (Event T E)) := by
  induction sources with
  | nil => exact .nothing (List.forall_mem_nil _) rfl
  | cons source sources ih =>
    rw [pollSources]
    cases sourcePolled (E := E) hrings source with
    | nothing empty same =>
      rw [same]
      cases ih with
      | nothing others same => exact .nothing (List.forall_mem_cons.mpr ⟨empty, others⟩) same
      | first before next later hsplit others hpolled waiting =>
        exact .first (source :: before) next later (by rw [hsplit, List.cons_append])
          (List.forall_mem_cons.mpr ⟨empty, others⟩) hpolled waiting
    | handed waiting event answer _ _ _ _ =>
      refine .first [] source sources rfl (List.forall_mem_nil _) ?_ waiting
      rw [← Prod.mk.eta (p := source.poll queues), answer]

/-- A queue whose log grows and whose reader stands still. -/
theorem position_le_modify {k : Nat} {change : RingSystem T → RingSystem T}
    (hchange : ∀ queue ∈ queues, queue.log <+: (change queue).log ∧
      (change queue).cursor source.sourceId = queue.cursor source.sourceId) :
    source.position queues ≤ source.position (queues.modify k change) := by
  unfold RapidSource.position
  rw [List.getElem?_modify]
  cases hqueue : queues[source.queue]? with
  | none => exact Nat.le_refl 0
  | some queue =>
    obtain ⟨hlog, hcursor⟩ := hchange queue (List.mem_of_getElem? hqueue)
    rw [Option.map_eq_map, Option.map_some]
    dsimp only
    split
    · rw [hcursor]
      cases queue.cursor source.sourceId with
      | none => exact hlog.length_le
      | some c => exact Nat.le_refl c
    · exact Nat.le_refl _

end Source

section Moves
variable {r : Reactor T E} {source : RapidSource}

theorem pollCounted_sources (r : Reactor T E) (nowNs : UInt64) :
    (r.pollCounted nowNs).1.queues = r.queues ∧
      (r.pollCounted nowNs).1.rapidSources = r.rapidSources := by
  unfold Reactor.pollCounted
  dsimp only
  split
  · split
    · exact ⟨rfl, rfl⟩
    · exact ⟨rfl, rfl⟩
  · exact ⟨rfl, rfl⟩

theorem pollChannels_sources (r : Reactor T E) (nowNs : UInt64) :
    (r.pollChannels nowNs).1.queues = r.queues ∧
      (r.pollChannels nowNs).1.rapidSources = r.rapidSources := by
  unfold Reactor.pollChannels
  split
  · exact ⟨rfl, rfl⟩
  · exact ⟨rfl, rfl⟩
  · exact pollCounted_sources r nowNs

theorem rapidSources_step (r : Reactor T E) (input : PollInput E) :
    (r.step input).1.rapidSources = r.rapidSources := by
  have harrive := arrive_sources r input
  have hlistener := ensureControlListener_sources (r.arrive input) input.spawned
  unfold Reactor.step Reactor.poll
  split
  · exact harrive.2
  · dsimp only
    split
    · exact hlistener.2.trans harrive.2
    · rw [(pollChannels_sources _ _).2]
      exact hlistener.2.trans harrive.2

/-- What a poll does to the queues is what the loop over the sources does. -/
theorem step_eq_pollSources (r : Reactor T E) {input : PollInput E}
    (hinput : input.shutdown = false) :
    (r.step input).1.queues = (pollSources (E := E) r.queues r.rapidSources).1 ∧
      ∀ event, (pollSources r.queues r.rapidSources).2 = some event →
        (r.step input).2 = some event := by
  have harrive := arrive_sources r input
  have hlistener := ensureControlListener_sources (r.arrive input) input.spawned
  simp only [Reactor.step, Reactor.poll, hinput, Bool.false_eq_true, if_false, hlistener.1,
    hlistener.2, harrive.1, harrive.2]
  rcases hpoll : (pollSources r.queues r.rapidSources : List (RingSystem T) × Option (Event T E))
    with ⟨queues, _ | event⟩
  · exact ⟨(pollChannels_sources _ _).1, fun _ h => by cases h⟩
  · exact ⟨rfl, fun _ h => h⟩

theorem queues_of_shutdown (r : Reactor T E) {input : PollInput E} (hinput : ¬ input.shutdown = false) :
    (r.step input).1.queues = r.queues := by
  rw [Reactor.step, Reactor.poll, if_pos (by simpa using hinput)]
  exact (arrive_sources r input).1

theorem sources_prefix_move (r : Reactor T E) (i : Move T E) :
    r.rapidSources <+: (r.move i).rapidSources := by
  cases i with
  | queue k call => exact List.prefix_refl _
  | addReader k => exact List.prefix_append _ _
  | poll input =>
    rw [Reactor.move, rapidSources_step]

theorem logs_poll (queues : List (RingSystem T)) (source : RapidSource) :
    (source.poll (E := E) queues).1.map (·.log) = queues.map (·.log) := by
  unfold RapidSource.poll
  split
  · rfl
  · rename_i queue hqueue
    split
    · rfl
    · have hlog : (queues.map (·.log))[source.queue]? = some queue.log := by
        rw [List.getElem?_map, hqueue, Option.map_some]
      obtain ⟨hlt, hget⟩ := List.getElem?_eq_some_iff.mp hlog
      dsimp only
      rw [List.map_set, RingSystem.received_log, ← hget, List.set_getElem_self]

theorem logs_pollSources (queues : List (RingSystem T)) (sources : List RapidSource) :
    (pollSources (E := E) queues sources).1.map (·.log) = queues.map (·.log) := by
  induction sources generalizing queues with
  | nil => rfl
  | cons source sources ih =>
    have hsource := logs_poll (E := E) queues source
    rw [pollSources]
    split
    · rename_i hevent
      rw [hevent] at hsource
      exact hsource
    · rename_i hnone
      rw [hnone] at hsource
      exact (ih _).trans hsource

theorem few_modify {queues : List (RingSystem T)} {k : Nat}
    {change : RingSystem T → RingSystem T} (hgrows : ∀ queue, queue.log <+: (change queue).log)
    (h : ∀ queue ∈ queues.modify k change, queue.log.length < 2 ^ 64) :
    ∀ queue ∈ queues, queue.log.length < 2 ^ 64 := by
  intro queue hqueue
  obtain ⟨n, hn⟩ := List.mem_iff_getElem?.mp hqueue
  have hchanged : (queues.modify k change)[n]? =
      some (if k = n then change queue else queue) := by
    rw [List.getElem?_modify, hn]
    rfl
  have hlt := h _ (List.mem_of_getElem? hchanged)
  split at hlt
  · exact Nat.lt_of_le_of_lt (hgrows queue).length_le hlt
  · exact hlt

theorem few_of_logs {r' : Reactor T E} (hlogs : r'.queues.map (·.log) = r.queues.map (·.log))
    (h : Few r') : Few r := by
  intro queue hqueue
  have hlog : queue.log ∈ r'.queues.map (·.log) := hlogs ▸ List.mem_map_of_mem hqueue
  obtain ⟨queue', hqueue', hsame⟩ := List.mem_map.mp hlog
  rw [← hsame]
  exact h queue' hqueue'

/-- The writers only count up, so a bound at the end of a run holds all along it. -/
theorem few_of_move (r : Reactor T E) (i : Move T E) (h : Few (r.move i)) : Few r := by
  cases i with
  | queue k call => exact few_modify (fun queue => queue.log_prefix_step call) h
  | addReader k => exact few_modify (fun queue => queue.log_prefix_step _) h
  | poll input =>
    by_cases hinput : input.shutdown = false
    · refine few_of_logs ?_ h
      rw [Reactor.move, (step_eq_pollSources r hinput).1, logs_pollSources]
    · refine few_of_logs ?_ h
      rw [Reactor.move, queues_of_shutdown r hinput]

theorem rings_modify {queues : List (RingSystem T)} {k : Nat} {call : RingStep T}
    (hrings : ∀ queue ∈ queues, queue.Inv)
    (hfew : ∀ queue ∈ queues.modify k (·.step call), queue.log.length < 2 ^ 64) :
    ∀ queue ∈ queues.modify k (·.step call), queue.Inv := by
  intro queue hqueue
  have hlt := hfew queue hqueue
  obtain ⟨n, hn⟩ := List.mem_iff_getElem?.mp hqueue
  rw [List.getElem?_modify, Option.map_eq_map, Option.map_eq_some_iff] at hn
  obtain ⟨before, hbefore, rfl⟩ := hn
  have hinv := hrings before (List.mem_of_getElem? hbefore)
  by_cases hk : k = n
  · rw [if_pos hk] at hlt ⊢
    exact hinv.step call hlt
  · rw [if_neg hk]
    exact hinv

/-- What a poll does to the sources: nothing, when nothing waits, or it serves the first
at which something does. -/
inductive PolledSources (r : Reactor T E) (after : Reactor T E × Option (Event T E)) : Prop where
  | nothing (empty : ∀ source ∈ r.rapidSources, source.lag r.queues = 0)
      (same : after.1.queues = r.queues)
  | served (before : List RapidSource) (source : RapidSource) (later : List RapidSource)
      (split : r.rapidSources = before ++ source :: later)
      (empty : ∀ earlier ∈ before, earlier.lag r.queues = 0)
      (answer : Event.IsData source.sourceId after.2)
      (rings : ∀ queue ∈ after.1.queues, queue.Inv)
      (moved : source.position r.queues < source.position after.1.queues)
      (others : ∀ other : RapidSource, other.sourceId ≠ source.sourceId →
        other.position after.1.queues = other.position r.queues)

theorem Ordered.polled (h : Ordered r) {input : PollInput E} (hinput : input.shutdown = false) :
    PolledSources r (r.step input) := by
  obtain ⟨hqueues, hanswer⟩ := step_eq_pollSources r hinput
  cases sourcesPolled (E := E) h.rings r.rapidSources with
  | nothing empty same =>
    rw [same] at hqueues
    exact .nothing empty hqueues
  | first before source later hsplit empty hpolled waiting =>
    rw [hpolled] at hqueues hanswer
    cases sourcePolled (E := E) h.rings source with
    | nothing none _ =>
      rw [none] at waiting
      cases waiting
    | handed _ event answer data rings moved others =>
      rw [← hqueues] at rings moved others
      rw [answer, ← hanswer event answer] at data
      exact .served before source later hsplit empty data rings moved others

theorem Ordered.move (h : Ordered r) (i : Move T E) (hfew : Few (r.move i)) :
    Ordered (r.move i) := by
  cases i with
  | queue k call => exact ⟨h.numbered, rings_modify h.rings hfew⟩
  | addReader k => exact ⟨h.numbered.addRapidReader k, rings_modify h.rings hfew⟩
  | poll input =>
    refine ⟨?_, ?_⟩
    · rw [Numbered, Reactor.move, rapidSources_step]
      exact h.numbered
    · by_cases hinput : input.shutdown = false
      · cases h.polled hinput with
        | nothing empty same =>
          rw [Reactor.move, same]
          exact h.rings
        | served _ _ _ _ _ _ rings _ _ => exact rings
      · rw [Reactor.move, queues_of_shutdown r hinput]
        exact h.rings

theorem Ordered.eq_of_sourceId (h : Ordered r) {source other : RapidSource}
    (hsource : source ∈ r.rapidSources) (hother : other ∈ r.rapidSources)
    (hid : source.sourceId = other.sourceId) : source = other :=
  List.inj_on_of_nodup_map h.numbered.ids hsource hother hid

/-- No reader of a source is moved back, and only a poll moves it at all. -/
theorem Ordered.position_le (h : Ordered r) {i : Move T E} (hi : Foreign r.rapidSources i)
    (hsource : source ∈ r.rapidSources) :
    source.position r.queues ≤ source.position (r.move i).queues := by
  cases i with
  | queue k call =>
    refine position_le_modify fun queue hqueue => ⟨queue.log_prefix_step call, ?_⟩
    exact (h.rings queue hqueue).cursor_step (hi source hsource)
  | addReader k =>
    refine position_le_modify fun queue hqueue => ⟨queue.log_prefix_step _, ?_⟩
    have hlt : source.sourceId < r.rapidSources.length := by
      rw [← List.mem_range, ← h.numbered]
      exact List.mem_map_of_mem hsource
    refine (h.rings queue hqueue).cursor_step fun hsame => ?_
    rw [RingStep.reader, Option.some.injEq] at hsame
    omega
  | poll input =>
    by_cases hinput : input.shutdown = false
    · cases h.polled hinput with
      | nothing empty same => rw [Reactor.move, same]
      | served before served later hsplit _ _ _ moved others =>
        by_cases hid : source.sourceId = served.sourceId
        · have hserved : served ∈ r.rapidSources := by simp [hsplit]
          rw [h.eq_of_sourceId hsource hserved hid]
          exact Nat.le_of_lt moved
        · exact Nat.le_of_eq (others source hid).symm
    · rw [Reactor.move, queues_of_shutdown r hinput]

/-- A source is passed over only for one of those before it. -/
theorem Ordered.passed_for (h : Ordered r) {earlier later : List RapidSource}
    (hsources : r.rapidSources = earlier ++ source :: later) {i : Move T E}
    (hi : PassesOver source r i) :
    ∃ served ∈ earlier, served.position r.queues < served.position (r.move i).queues := by
  cases i with
  | queue k call => exact hi.elim
  | addReader k => exact hi.elim
  | poll input =>
    obtain ⟨hinput, hwaiting, hanswer⟩ := hi
    have hmem : source ∈ r.rapidSources := by simp [hsources]
    cases h.polled hinput with
    | nothing empty same =>
      rw [empty source hmem] at hwaiting
      cases hwaiting
    | served before served rest hsplit empty answer _ moved _ =>
      refine ⟨served, ?_, moved⟩
      have hne : served ≠ source := by
        rintro rfl
        exact hanswer answer
      have hnot : source ∉ before := by
        intro hbefore
        rw [empty source hbefore] at hwaiting
        cases hwaiting
      rw [hsources] at hsplit
      rcases List.append_eq_append_iff.mp hsplit with ⟨as, hbefore, hlist⟩ | ⟨bs, hearlier, hlist⟩
      · cases as with
        | nil =>
          rw [List.nil_append, List.cons.injEq] at hlist
          exact absurd hlist.1.symm hne
        | cons a as =>
          rw [List.cons_append, List.cons.injEq] at hlist
          exact absurd (by simp [hbefore, hlist.1]) hnot
      · cases bs with
        | nil =>
          rw [List.nil_append, List.cons.injEq] at hlist
          exact absurd hlist.1 hne
        | cons b bs =>
          rw [List.cons_append, List.cons.injEq] at hlist
          simp [hearlier, hlist.1]

end Moves

section Runs
variable {r : Reactor T E} {is : List (Move T E)}

theorem sources_prefix_run (r : Reactor T E) (is : List (Move T E)) :
    r.rapidSources <+: (run Reactor.move r is).rapidSources := by
  induction is generalizing r with
  | nil => exact List.prefix_refl _
  | cons i is ih => exact (sources_prefix_move r i).trans (ih (r.move i))

theorem Ordered.always (h : Ordered r) (hfew : Few (run Reactor.move r is)) :
    Always Reactor.move Ordered r is := by
  induction is generalizing r with
  | nil => exact always_nil.mpr h
  | cons i is ih =>
    have hnext : Few (r.move i) := within_of_run few_of_move hfew
    exact always_cons.mpr ⟨h, ih (h.move i hnext) hfew⟩

/-- The ranks of the sources before one, all readers taken together. -/
def positions (sources : List RapidSource) (r : Reactor T E) : Nat :=
  (sources.map fun source => source.position r.queues).sum

theorem sum_lag_add_positions (h : Ordered r) (sources : List RapidSource) :
    (sources.map fun source => source.lag r.queues).sum + positions sources r =
      (sources.map fun source => committed r.queues source.queue).sum := by
  rw [positions, ← List.sum_map_add]
  congr 2
  funext source
  exact lag_add_position h.rings source

/-- A step of the run, seen by a source and those before it. -/
structure Steady (earlier : List RapidSource) (source : RapidSource) (r : Reactor T E)
    (i : Move T E) : Prop where
  ordered : Ordered r
  foreign : Foreign r.rapidSources i
  sources : earlier ++ [source] <+: r.rapidSources

theorem Ordered.steady (h : Ordered r) {earlier later : List RapidSource} {source : RapidSource}
    (hsources : r.rapidSources = earlier ++ source :: later)
    (hforeign : ∀ i ∈ is, Foreign (run Reactor.move r is).rapidSources i)
    (hfew : Few (run Reactor.move r is)) :
    Guarded Reactor.move (Steady earlier source) r is := by
  rintro js i ⟨ks, rfl⟩
  have hstart : earlier ++ [source] <+: r.rapidSources := ⟨later, by simp [hsources]⟩
  have hend : (run Reactor.move r js).rapidSources <+:
      (run Reactor.move r (js ++ [i] ++ ks)).rapidSources := by
    rw [List.append_assoc, run_append]
    exact sources_prefix_run _ _
  refine ⟨h.always hfew js ?_, ?_, hstart.trans (sources_prefix_run r js)⟩
  · exact ⟨i :: ks, by simp⟩
  · exact (hforeign i (by simp)).mono fun s hs => hend.subset hs

section Step
variable {earlier : List RapidSource} {source : RapidSource} {i : Move T E}

theorem Steady.mem (h : Steady earlier source r i) {s : RapidSource} (hs : s ∈ earlier) :
    s ∈ r.rapidSources := h.sources.subset (List.mem_append_left _ hs)

theorem Steady.grows (h : Steady earlier source r i) :
    positions earlier r ≤ positions earlier (r.move i) :=
  List.sum_le_sum fun _ hs => h.ordered.position_le h.foreign (h.mem hs)

theorem Steady.rises (h : Steady earlier source r i) (hpasses : PassesOver source r i) :
    positions earlier r < positions earlier (r.move i) := by
  obtain ⟨rest, hlist⟩ := h.sources
  rw [List.append_assoc, List.singleton_append] at hlist
  obtain ⟨served, hserved, hmoved⟩ := h.ordered.passed_for hlist.symm hpasses
  exact List.sum_lt_sum _ _ (fun s hs => h.ordered.position_le h.foreign (h.mem hs))
    ⟨served, hserved, hmoved⟩

end Step

/-- A source with something unread is passed over at most as often as there is something
to read on those before it: what waited there and what is written there along the run. -/
theorem passed_over_le (h : Ordered r) {earlier later : List RapidSource} {source : RapidSource}
    (hsources : r.rapidSources = earlier ++ source :: later)
    (hforeign : ∀ i ∈ is, Foreign (run Reactor.move r is).rapidSources i)
    (hfew : Few (run Reactor.move r is)) :
    passedOver source r is + (earlier.map (·.lag (run Reactor.move r is).queues)).sum ≤
      (earlier.map fun s => s.lag r.queues +
        (committed (run Reactor.move r is).queues s.queue - committed r.queues s.queue)).sum := by
  have hsteady := h.steady hsources hforeign hfew
  have hrank := countAlong_le_of_rises (fun _ _ => Steady.grows) (fun _ _ => Steady.rises) hsteady
  have hbefore := sum_lag_add_positions h earlier
  have hafter := sum_lag_add_positions (h.always hfew is (List.prefix_refl is)) earlier
  have hwritten : (earlier.map fun s => committed (run Reactor.move r is).queues s.queue).sum ≤
      (earlier.map fun s => committed r.queues s.queue +
        (committed (run Reactor.move r is).queues s.queue - committed r.queues s.queue)).sum :=
    List.sum_le_sum fun _ _ => le_add_tsub
  rw [List.sum_map_add] at hwritten ⊢
  rw [passedOver]
  omega

/-- Both sources have two messages, and the first is given a third in between. -/
def fedBetween : List (Move UInt64 Unit) :=
  [.poll quiet, .queue 0 (.write 9), .poll quiet, .poll quiet, .poll quiet]

theorem ordered_twoSources : Ordered twoSources := by
  have hnew : ∀ queues, Numbered (Reactor.new queues : Reactor UInt64 Unit) := fun _ => rfl
  have hcreate : Ring.create 2 1 (0 : UInt64) =
      .ok (⟨2, 0, [freeReader], Vector.replicate _ 0, Nat.two_pos⟩, ⟨0, false⟩) := rfl
  have hwritten : ∀ reader : Nat, ((emptyQueue.step (.connect reader)).write 7).write 8 =
      run RingSystem.step emptyQueue [.connect reader, .write 7, .write 8] := fun _ => rfl
  refine ⟨((hnew _).addRapidReader 0).addRapidReader 1, ?_⟩
  have hqueues : twoSources.queues = [((emptyQueue.step (.connect 0)).write 7).write 8,
      ((emptyQueue.step (.connect 1)).write 7).write 8] := rfl
  rw [hqueues, List.forall_mem_cons, List.forall_mem_singleton, hwritten, hwritten]
  exact ⟨(RingSystem.inv_start hcreate).run (by decide) _ (List.prefix_refl _),
    (RingSystem.inv_start hcreate).run (by decide) _ (List.prefix_refl _)⟩

theorem passed_over_le_fed_between :
    passedOver ⟨1, 1⟩ twoSources fedBetween = 3 ∧
      passedOver ⟨1, 1⟩ twoSources fedBetween +
          ([⟨0, 0⟩].map (RapidSource.lag · (run Reactor.move twoSources fedBetween).queues)).sum ≤
        ([⟨0, 0⟩].map fun s : RapidSource => s.lag twoSources.queues +
          (committed (run Reactor.move twoSources fedBetween).queues s.queue -
            committed twoSources.queues s.queue)).sum :=
  ⟨by decide, passed_over_le ordered_twoSources
    (show twoSources.rapidSources = [⟨0, 0⟩] ++ [⟨1, 1⟩] from rfl) (by decide) (by decide)⟩

end Runs

end Polling

end Nnxt
