import Nnxt.DataCasts
import Nnxt.PolledActions

/-!
# When a pointer is read at the type of its queue

The id stores of the two runners against the list of sources: what a run has kept as
the source of a type is a reader of that type, and a list that only grows never gives
an id to another reader. What a strategy runner has kept from an earlier run may be the
id of any source by now; a trade gateway runner has only sources of actions.
-/

namespace Nnxt.ElementTypes

set_option autoImplicit false

open HashMap Transition TypedContext

/-- The calls of a strategy runner that go to its context. -/
def queueCalls (calls : List RunnerCall) : List QueueCall :=
  calls.filterMap fun
    | .queue call => some call
    | _ => none

/-- What `read_from` finds at the address. -/
def canRead (s : TradeGatewayRunner.System) (addr : String) : Bool :=
  TradeGatewayRunner.addressAccepted addr &&
    (s.find addr).any fun found => TradeGatewayRunner.canConnect found.2

/-- The calls of the gateway runner that go to its context, and the cast of the action. -/
def stepCalls (s : TradeGatewayRunner.System) : TradeGatewayRunner.Step → List QueueCall
  | .attempt =>
    match s.phase with
    | .adding addr _ _ => [.readFrom addr .action (canRead s addr)]
    | _ => []
  | .handle _ =>
    match s.phase with
    | .handling source _ => if source ∈ s.actionSources then [.cast source .action] else []
    | _ => []
  | _ => []

def systemCalls (s : TradeGatewayRunner.System) : List TradeGatewayRunner.Step → List QueueCall
  | [] => []
  | i :: is => stepCalls s i ++ systemCalls (s.step i) is

/-- What the runner keeps as the source of a type is one of that type, or is kept from
before the run. Whatever is written to is a queue of actions. -/
structure Typed (before : StrategyRunner) (v : RunnerView) : Prop where
  quotes : ∀ source ∈ v.quoteSources, source ∈ before.quoteSources ∨
    v.queues.ConnectedAt source.sourceId .orderBook
  orderEvents : ∀ id, v.orderEventSourceId = some id → before.orderEventSourceId = some id ∨
    v.queues.ConnectedAt id .orderEvent
  tradeEvents : ∀ id, v.tradeEventSourceId = some id → before.tradeEventSourceId = some id ∨
    v.queues.ConnectedAt id .tradeEvent
  writers : ∀ addr, v.queues.ctx.writers.lookup addr ≠ none → v.queues.CreatedAt addr .action

/-- A cast by an id from before the run is at the type of the source that has the id now. -/
def ReadsItsType (before : StrategyRunner) (v : RunnerView) (call : RunnerCall) : Prop :=
  ∀ sourceId elementType, call = .queue (.cast sourceId elementType) →
    before.Keeps sourceId elementType → v.queues.ConnectedAt sourceId elementType

/-- A cast by an id from before the run. -/
def StaleCast (before : StrategyRunner) (call : QueueCall) : Prop :=
  ∃ sourceId elementType, call = .cast sourceId elementType ∧ before.Keeps sourceId elementType

/-- The two are the same, read at the type. -/
def AgreeAt (payload payload' : Payload) : ElementType → Prop
  | .orderBook => payload.book = payload'.book
  | .orderEvent => payload.orderEvent = payload'.orderEvent
  | .tradeEvent => payload.tradeEvent = payload'.tradeEvent
  | .action => True

/-- Nothing is read behind the pointer of a data event but what is cast. -/
theorem handleDataEvent_congr (r : StrategyRunner) {sourceId : Nat} {payload payload' : Payload}
    {nowNs : UInt64} {calls : List ContextCall}
    (h : ∀ elementType, .queue (.cast sourceId elementType) ∈
      r.dataCalls sourceId payload nowNs calls → AgreeAt payload payload' elementType)
    (ctx : ActorContext) :
    r.handleDataEvent sourceId payload nowNs calls ctx =
      r.handleDataEvent sourceId payload' nowNs calls ctx := by
  unfold StrategyRunner.dataCalls at h
  unfold StrategyRunner.handleDataEvent
  cases hfind : r.quoteSources.find? fun source => source.sourceId = sourceId with
  | some source =>
    simp only [hfind] at h
    have hbook : payload.book = payload'.book := h .orderBook List.mem_cons_self
    simp only [hbook]
  | none =>
    simp only [hfind] at h
    by_cases horder : some sourceId = r.orderEventSourceId
    · rw [if_pos horder] at h
      have hevent : payload.orderEvent = payload'.orderEvent := h .orderEvent List.mem_cons_self
      simp only [if_pos horder, hevent]
    rw [if_neg horder] at h
    by_cases htrade : some sourceId = r.tradeEventSourceId
    · rw [if_pos htrade] at h
      have hevent : payload.tradeEvent = payload'.tradeEvent := h .tradeEvent List.mem_cons_self
      simp only [if_neg horder, if_pos htrade, hevent]
    · simp only [if_neg horder, if_neg htrade]

section Strategy
variable {before : StrategyRunner} {v : RunnerView}

theorem typed_ofRunner (r : StrategyRunner) : Typed r (.ofRunner r) where
  quotes := fun _ hsource => .inl hsource
  orderEvents := fun _ hid => .inl hid
  tradeEvents := fun _ hid => .inl hid
  writers := fun addr hwriter => absurd (AList.lookup_empty addr) hwriter

/-- A writer is there already, or is the one that the call creates. -/
theorem createdAt_step {c : TypedContext} {call : QueueCall}
    (hwriters : ∀ addr, c.ctx.writers.lookup addr ≠ none → c.CreatedAt addr .action)
    (hcall : ∀ addr created capacity opened, call = .writeTo addr created capacity opened →
      created = .action) (addr : String)
    (hwriter : (c.step call).ctx.writers.lookup addr ≠ none) :
    (c.step call).CreatedAt addr .action := by
  by_cases hbefore : c.ctx.writers.lookup addr = none
  · cases call with
    | readFrom other elementType opened =>
      rw [TypedContext.step, ActorContext.readFrom_writers] at hwriter
      exact absurd hbefore hwriter
    | cast sourceId elementType => exact absurd hbefore hwriter
    | publish other elementType action =>
      rw [TypedContext.step, ActorContext.publish] at hwriter
      split at hwriter
      · exact absurd hbefore hwriter
      · rename_i queue hqueue
        rw [lookup_insert_eq] at hwriter
        split at hwriter
        · rename_i heq
          rw [heq, hqueue] at hbefore
          cases hbefore
        · exact absurd hbefore hwriter
    | writeTo other created capacity opened =>
      cases hcall other created capacity opened rfl
      rcases c.ctx.writeTo_cases other capacity opened with ⟨error, hwrite⟩ | ⟨queue, hwrite⟩
      · rw [TypedContext.step, TypedContext.writeTo, hwrite] at hwriter
        exact absurd hbefore hwriter
      · have hother : addr = other := by
          by_contra hne
          rw [TypedContext.step, TypedContext.writeTo, hwrite] at hwriter
          rw [lookup_insert_eq, if_neg hne] at hwriter
          exact hwriter hbefore
        rw [hother]
        exact createdAt_writeTo (congrArg Prod.snd hwrite)
  · exact (hwriters addr hbefore).step hcall

theorem Typed.queue (h : Typed before v) {call : QueueCall} (hallowed : v.Allowed (.queue call)) :
    Typed before (v.step (.queue call)) := by
  refine ⟨?_, ?_, ?_, ?_⟩
  · intro source hsource
    exact (h.quotes source hsource).imp_right fun hconnected => hconnected.step call
  · intro id hid
    exact (h.orderEvents id hid).imp_right fun hconnected => hconnected.step call
  · intro id hid
    exact (h.tradeEvents id hid).imp_right fun hconnected => hconnected.step call
  · apply createdAt_step h.writers
    rintro addr created capacity opened rfl
    exact hallowed

theorem Typed.step (h : Typed before v) {call : RunnerCall} (hallowed : v.Allowed call) :
    Typed before (v.step call) := by
  cases call with
  | queue call => exact h.queue hallowed
  | keepQuoteSource source =>
    refine { h with quotes := ?_ }
    intro other hother
    rcases List.mem_append.mp hother with hother | hother
    · exact h.quotes other hother
    · rw [List.mem_singleton.mp hother]
      exact .inr hallowed
  | keepOrderEventSource sourceId =>
    refine { h with orderEvents := ?_ }
    intro id hid
    cases hid
    exact .inr hallowed
  | keepTradeEventSource sourceId =>
    refine { h with tradeEvents := ?_ }
    intro id hid
    cases hid
    exact .inr hallowed
  | keepActionQueue addr => exact { h with }
  | updateMarket book => exact { h with }
  | applyOrderEvent event => exact { h with }
  | applyTradeEvent event => exact { h with }
  | onActionSent action nowNs => exact { h with }

/-- A source found in a store is one of its type, or has been found by an id from before. -/
theorem Typed.connectedAt (h : Typed before v) {sourceId : Nat} {elementType : ElementType}
    (hkeeps : v.Keeps sourceId elementType) :
    before.Keeps sourceId elementType ∨ v.queues.ConnectedAt sourceId elementType := by
  cases elementType with
  | orderBook =>
    obtain ⟨source, hsource, rfl⟩ := hkeeps
    exact (h.quotes source hsource).imp_left fun hbefore => ⟨source, hbefore, rfl⟩
  | orderEvent => exact h.orderEvents sourceId hkeeps
  | tradeEvent => exact h.tradeEvents sourceId hkeeps
  | action => exact hkeeps.elim

theorem Typed.matches_iff (h : Typed before v) {call : QueueCall}
    (hallowed : v.Allowed (.queue call)) :
    v.queues.Matches call ↔ ReadsItsType before v (.queue call) := by
  cases call with
  | cast sourceId elementType =>
    constructor
    · rintro hconnected _ _ heq -
      cases heq
      exact hconnected
    · intro hreads
      rcases h.connectedAt hallowed with hbefore | hconnected
      · exact hreads sourceId elementType rfl hbefore
      · exact hconnected
  | publish addr elementType action =>
    obtain ⟨-, rfl⟩ := hallowed
    exact iff_of_true (h.writers addr) fun _ _ heq => by cases heq
  | readFrom addr elementType opened => exact iff_of_true trivial fun _ _ heq => by cases heq
  | writeTo addr elementType capacity opened =>
    exact iff_of_true trivial fun _ _ heq => by cases heq

theorem Typed.matches_or_stale (h : Typed before v) {call : QueueCall}
    (hallowed : v.Allowed (.queue call)) : v.queues.Matches call ∨ StaleCast before call := by
  by_cases hstale : StaleCast before call
  · exact .inr hstale
  · left
    apply (h.matches_iff hallowed).mpr
    intro sourceId elementType heq hbefore
    cases heq
    exact absurd ⟨sourceId, elementType, rfl, hbefore⟩ hstale

section Guards
variable {P : TypedContext → QueueCall → Prop} {Q : RunnerView → RunnerCall → Prop}

/-- What holds of the calls of the context holds of the calls of the runner, if it does for
one call. -/
theorem guarded_queueCalls_iff
    (hqueue : ∀ v call, Typed before v → v.Allowed (.queue call) →
      (P v.queues call ↔ Q v (.queue call)))
    (hother : ∀ v call, (∀ queued, call ≠ .queue queued) → Q v call)
    (h : Typed before v) {calls : List RunnerCall}
    (hguarded : Guarded RunnerView.step RunnerView.Allowed v calls) :
    Guarded TypedContext.step P v.queues (queueCalls calls) ↔
      Guarded RunnerView.step Q v calls := by
  induction calls generalizing v with
  | nil => exact iff_of_true guarded_nil guarded_nil
  | cons call calls ih =>
    obtain ⟨hallowed, hguarded⟩ := guarded_cons.mp hguarded
    have hrest := ih (h.step hallowed) hguarded
    rw [guarded_cons]
    cases call with
    | queue call =>
      have hcons : queueCalls (.queue call :: calls) = call :: queueCalls calls := rfl
      rw [hcons, guarded_cons, hqueue v call h hallowed]
      exact and_congr_right fun _ => hrest
    | _ =>
      refine hrest.trans (and_iff_right (hother v _ ?_)).symm
      intro _ heq
      cases heq

end Guards

/-- The calls of the context match exactly if the casts by old ids do. -/
theorem guarded_matches_iff (h : Typed before v) {calls : List RunnerCall}
    (hguarded : Guarded RunnerView.step RunnerView.Allowed v calls) :
    Guarded TypedContext.step Matches v.queues (queueCalls calls) ↔
      Guarded RunnerView.step (ReadsItsType before) v calls := by
  refine guarded_queueCalls_iff (fun v call h hallowed => h.matches_iff hallowed) ?_ h hguarded
  intro v call hother sourceId elementType heq
  exact absurd heq (hother _)

theorem guarded_matches_or_stale (h : Typed before v) {calls : List RunnerCall}
    (hguarded : Guarded RunnerView.step RunnerView.Allowed v calls) :
    Guarded TypedContext.step (fun c call => c.Matches call ∨ StaleCast before call) v.queues
      (queueCalls calls) := by
  have hall : Guarded RunnerView.step (fun _ _ => True) v calls := fun _ _ _ => trivial
  refine (guarded_queueCalls_iff (fun v call h hallowed => ?_) (fun _ _ _ => trivial) h
    hguarded).mpr hall
  exact iff_of_true (h.matches_or_stale hallowed) trivial

/-- The calls that go to the context are all that changes it. -/
theorem queues_run (v : RunnerView) (calls : List RunnerCall) :
    (run RunnerView.step v calls).queues = run TypedContext.step v.queues (queueCalls calls) := by
  induction calls generalizing v with
  | nil => rfl
  | cons call calls ih =>
    rw [run_cons, ih]
    cases call <;> rfl

/-- Calls without casts leave nothing to check. -/
theorem guarded_of_castFree {calls : List RunnerCall} (h : CastFree calls) (v : RunnerView) :
    Guarded RunnerView.step (ReadsItsType before) v calls := by
  intro js call hsplit sourceId elementType heq
  have hmem : call ∈ calls := hsplit.subset (List.mem_append_right js (List.mem_singleton_self call))
  rw [heq] at hmem
  exact absurd hmem (h sourceId elementType)

theorem connectedAt_iff {r : StrategyRunner} {ctx : ActorContext} (hshows : v.Shows r ctx)
    {sourceId : Nat} {elementType : ElementType} :
    v.queues.ConnectedAt sourceId elementType ↔ ctx.ConnectedAt sourceId elementType := by
  rw [TypedContext.ConnectedAt, hshows.ctx]
  rfl

/-- An event that is handled reads at its type exactly as its one cast does. -/
theorem guarded_eventCalls_iff {s : Session} (hshows : v.Shows s.runner s.ctx)
    (hrunning : s.running = true) (event : Event × Reaction) :
    Guarded RunnerView.step (ReadsItsType before) v (s.runner.eventCalls event.1 event.2 s.ctx) ↔
      MeetsItsType before s event := by
  obtain ⟨rest, hfree, hcalls⟩ := s.runner.eventCalls_eq s.ctx event.1 event.2
  rw [hcalls, guarded_append, and_iff_left (guarded_of_castFree hfree _)]
  unfold MeetsItsType
  cases hevent : event.1 with
  | data sourceId payload =>
    cases hcast : s.runner.castAt sourceId with
    | none =>
      have hnone : s.runner.eventCasts (.data sourceId payload) = [] := by
        rw [StrategyRunner.eventCasts, hcast]
        rfl
      rw [hnone]
      refine iff_of_true guarded_nil fun _ id payload elementType heq hat => ?_
      cases heq
      rw [hcast] at hat
      cases hat
    | some elementType =>
      have hone : s.runner.eventCasts (.data sourceId payload) =
          [.queue (.cast sourceId elementType)] := by
        rw [StrategyRunner.eventCasts, hcast]
        rfl
      rw [hone, guarded_cons, and_iff_left guarded_nil]
      constructor
      · intro hreads _ id payload' found heq hat hbefore
        cases heq
        cases hcast.symm.trans hat
        exact (connectedAt_iff hshows).mp (hreads sourceId elementType rfl hbefore)
      · intro hmeets id found heq hbefore
        cases heq
        exact (connectedAt_iff hshows).mpr
          (hmeets hrunning sourceId payload elementType rfl hcast hbefore)
  | control => exact iff_of_true guarded_nil fun _ _ _ _ heq => by cases heq
  | external => exact iff_of_true guarded_nil fun _ _ _ _ heq => by cases heq
  | timer => exact iff_of_true guarded_nil fun _ _ _ _ heq => by cases heq
  | shutdown => exact iff_of_true guarded_nil fun _ _ _ _ heq => by cases heq

theorem guarded_loopCalls_iff {s : Session} (hshows : v.Shows s.runner s.ctx)
    (events : List (Event × Reaction)) :
    Guarded RunnerView.step (ReadsItsType before) v (s.loopCalls events) ↔
      Guarded Session.step (MeetsItsType before) s events := by
  induction events generalizing s v with
  | nil => exact iff_of_true guarded_nil guarded_nil
  | cons event events ih =>
    rw [Session.loopCalls, guarded_append, guarded_cons]
    cases hrunning : s.running with
    | true =>
      have hnext := (RunnerView.does_handleEventWithCtx s.runner event.2 s.ctx event.1 v hshows).2
      have hstep : (s.step event).runner =
          (s.runner.handleEventWithCtx event.1 event.2 s.ctx).runner ∧
          (s.step event).ctx = (s.runner.handleEventWithCtx event.1 event.2 s.ctx).ctx := by
        rw [Session.step, if_pos hrunning]
        exact ⟨rfl, rfl⟩
      rw [← hstep.1, ← hstep.2] at hnext
      rw [if_pos rfl, guarded_eventCalls_iff hshows hrunning, ih hnext]
    | false =>
      have hstep : s.step event = s := by
        rw [Session.step, if_neg (by rw [hrunning]; exact Bool.false_ne_true)]
      have hstopped : MeetsItsType before s event := by
        intro hstill
        rw [hrunning] at hstill
        cases hstill
      rw [if_neg Bool.false_ne_true, hstep, run_nil, ih hshows]
      exact and_congr_left fun _ => iff_of_true guarded_nil hstopped

/-- The exact form for one call of `run`, whatever the runner was used for before. -/
theorem typeSafe_launchCalls_iff (r : StrategyRunner) (launch : Launch) :
    TypeSafe (queueCalls (r.launchCalls launch)) ↔
      Guarded Session.step (MeetsItsType r) (r.relaunched launch) launch.events := by
  have hstart := RunnerView.does_startWithCtx r launch.reaction ActorContext.new launch.registered
    (.ofRunner r) (RunnerView.shows_ofRunner r)
  obtain ⟨hallowed, -⟩ := RunnerView.does_launch r launch (.ofRunner r) (RunnerView.shows_ofRunner r)
  have hqueues := guarded_matches_iff (typed_ofRunner r) hallowed
  rw [typeSafe_iff]
  refine hqueues.trans ?_
  have hfree := r.castFree_startCalls ActorContext.new launch.registered launch.reaction
  rw [StrategyRunner.launchCalls, guarded_append, and_iff_right (guarded_of_castFree hfree _)]
  exact guarded_loopCalls_iff hstart.2 launch.events

/-- Whatever ids are kept, no other call goes wrong. -/
theorem matches_or_stale_launchCalls (r : StrategyRunner) (launch : Launch) :
    Guarded TypedContext.step (fun c call => c.Matches call ∨ StaleCast r call) new
      (queueCalls (r.launchCalls launch)) := by
  obtain ⟨hallowed, -⟩ := RunnerView.does_launch r launch (.ofRunner r) (RunnerView.shows_ofRunner r)
  exact guarded_matches_or_stale (typed_ofRunner r) hallowed

theorem ctx_launchCalls (r : StrategyRunner) (launch : Launch) :
    (run step new (queueCalls (r.launchCalls launch))).ctx = (r.runOnce launch).ctx := by
  obtain ⟨-, hshows⟩ := RunnerView.does_launch r launch (.ofRunner r) (RunnerView.shows_ofRunner r)
  rw [← hshows.ctx, queues_run]
  rfl

/-- Nothing is kept from before the first run. -/
theorem meetsItsType_new (config : RunnerConfig) (s : Session) (event : Event × Reaction) :
    MeetsItsType (StrategyRunner.new config) s event := by
  intro _ sourceId payload elementType _ _ hkeeps
  cases elementType with
  | orderBook =>
    obtain ⟨source, hsource, -⟩ := hkeeps
    exact absurd hsource List.not_mem_nil
  | orderEvent => cases hkeeps
  | tradeEvent => cases hkeeps
  | action => exact hkeeps.elim

end Strategy

section Gateway
open TradeGatewayRunner

/-- Every source is one of actions, and what is in hand comes from one of them, whatever
ids the runner takes for sources of actions. -/
structure Listed (c : TypedContext) (s : System) : Prop where
  ctx : s.ctx = c.ctx
  mapped : s.mapped.length = c.ctx.rapidSources.length
  handled : ∀ source seq, s.phase = .handling source seq → source < s.mapped.length
  actions : ∀ source ∈ c.ctx.rapidSources, source.elementType = .action

variable {c : TypedContext} {s s' : System}

/-- A step that has nothing new in hand. -/
theorem Listed.congr (h : Listed c s) (hctx : s'.ctx = s.ctx) (hmapped : s'.mapped = s.mapped)
    (hphase : ∀ source seq, s'.phase = .handling source seq → s.phase = .handling source seq) :
    Listed c s' := by
  refine ⟨hctx.trans h.ctx, hmapped ▸ h.mapped, ?_, h.actions⟩
  intro source seq hhandling
  rw [hmapped]
  exact h.handled source seq (hphase source seq hhandling)

/-- What is in hand was connected as a source of actions. -/
theorem Listed.connectedAt (h : Listed c s) {source : Nat} {seq : UInt64}
    (hphase : s.phase = .handling source seq) : c.ConnectedAt source .action := by
  have hlt := h.handled source seq hphase
  rw [h.mapped] at hlt
  rw [ConnectedAt, List.getElem?_eq_getElem hlt, Option.map_some,
    h.actions _ (List.getElem_mem hlt)]

theorem Listed.poll (h : Listed c s) (input : PollInput) : Listed c (s.poll input) := by
  rcases s.poll_cases input with hsame | ⟨-, phase, hphase, hafter⟩ |
    ⟨-, source, n, seq, hpoll, hafter⟩
  · rw [hsame]
    exact h
  · rw [hafter]
    refine h.congr rfl rfl fun source seq hhandling => ?_
    simp only at hhandling
    rw [hhandling] at hphase
    cases hphase
  · rw [hafter]
    refine ⟨h.ctx, h.mapped, ?_, h.actions⟩
    intro source' seq' hhandling
    cases hhandling
    exact (List.getElem?_eq_some_iff.mp (System.pollData_some hpoll).1).1

theorem handle_keeps (s : System) (accepted : Bool) :
    (s.handle accepted).ctx = s.ctx ∧ (s.handle accepted).mapped = s.mapped ∧
      ∀ source seq, (s.handle accepted).phase = .handling source seq →
        s.phase = .handling source seq := by
  unfold System.handle
  split
  · rename_i hphase
    split
    · split
      · exact ⟨rfl, rfl, fun _ _ => id⟩
      · split
        · exact ⟨rfl, rfl, fun _ _ => id⟩
        · refine ⟨rfl, rfl, fun source seq hafter => ?_⟩
          cases accepted <;> cases hafter
    · refine ⟨rfl, rfl, fun source seq hafter => ?_⟩
      cases hafter
  · exact ⟨rfl, rfl, fun _ _ => id⟩

theorem Listed.create (h : Listed c s) (addr : String) (capacity : UInt64) :
    Listed c (s.create addr capacity) := by
  rcases s.create_cases addr capacity with hsame | ⟨ring, writer, due, -, hcreate, -⟩
  · rw [hsame]
    exact h
  · rw [hcreate]
    exact h.congr rfl rfl fun _ _ => id

/-- A pass that cannot read only changes the phase. -/
theorem attempt_of_not_canRead {addr : String} {n : Nat} {startup : Option (List String)}
    (hphase : s.phase = .adding addr n startup) (hread : canRead s addr = false) :
    ∃ phase : Phase, phase.inHand = [] ∧ s.attempt = { s with phase := phase } := by
  have hfailed : (s.addFailed startup).phase.inHand = [] := by
    unfold System.addFailed
    dsimp only
    split <;> rfl
  unfold System.attempt
  rw [hphase]
  dsimp only
  cases haccepted : addressAccepted addr with
  | false => exact ⟨_, hfailed, rfl⟩
  | true =>
    rw [if_pos rfl]
    cases hfind : s.find addr with
    | none =>
      dsimp only
      split
      · exact ⟨_, hfailed, rfl⟩
      · exact ⟨_, rfl, rfl⟩
    | some found =>
      have hcan : canConnect found.2 = false := by
        simpa [canRead, haccepted, hfind] using hread
      simp only [hcan]
      exact ⟨_, hfailed, rfl⟩

theorem attempt_of_canRead {addr : String} {n : Nat} {startup : Option (List String)}
    (hphase : s.phase = .adding addr n startup) (hread : canRead s addr = true) :
    s.attempt.ctx = (s.ctx.readFrom addr .action true).1 ∧
      (∃ m, s.attempt.mapped = s.mapped ++ [m]) ∧ s.attempt.phase.inHand = [] := by
  simp only [canRead, Bool.and_eq_true, Option.any_eq_true] at hread
  obtain ⟨haccepted, found, hfind, hcan⟩ := hread
  unfold System.attempt
  simp only [hphase, haccepted, if_true, hfind, hcan]
  exact ⟨rfl, ⟨_, rfl⟩, System.inHand_startup startup⟩

/-- A pass of the loop calls `read_from` once, and at the type of actions. -/
theorem Listed.attempt (h : Listed c s) :
    Guarded TypedContext.step Matches c (stepCalls s .attempt) ∧
      Listed (run TypedContext.step c (stepCalls s .attempt)) s.attempt := by
  cases hphase : s.phase with
  | adding addr n startup =>
    have hcalls : stepCalls s .attempt = [.readFrom addr .action (canRead s addr)] := by
      simp only [stepCalls, hphase]
    rw [hcalls]
    refine ⟨guarded_cons.mpr ⟨trivial, guarded_nil⟩, ?_⟩
    cases hread : canRead s addr with
    | false =>
      obtain ⟨phase, hhand, hattempt⟩ := attempt_of_not_canRead hphase hread
      rw [hattempt]
      refine h.congr rfl rfl fun source seq hhandling => ?_
      simp only at hhandling
      rw [hhandling] at hhand
      cases hhand
    | true =>
      obtain ⟨hctx, ⟨m, hmapped⟩, hhand⟩ := attempt_of_canRead hphase hread
      have hsources : (run TypedContext.step c [.readFrom addr .action true]).ctx.rapidSources =
          c.ctx.rapidSources ++ [⟨addr, .action⟩] := rfl
      refine ⟨by rw [hctx, h.ctx]; rfl, ?_, ?_, ?_⟩
      · rw [hmapped, hsources, List.length_append, List.length_append, h.mapped]
        rfl
      · intro source seq hhandling
        rw [hhandling] at hhand
        cases hhand
      · intro source hsource
        rw [hsources] at hsource
        rcases List.mem_append.mp hsource with hsource | hsource
        · exact h.actions source hsource
        · rw [List.mem_singleton.mp hsource]
  | _ =>
    simp only [stepCalls, System.attempt, hphase]
    exact ⟨guarded_nil, h⟩

/-- The pointer of an event is cast only if its id is in the list. -/
theorem Listed.handle (h : Listed c s) (accepted : Bool) :
    Guarded TypedContext.step Matches c (stepCalls s (.handle accepted)) ∧
      Listed (run TypedContext.step c (stepCalls s (.handle accepted))) (s.handle accepted) := by
  obtain ⟨hctx, hmapped, hhandling⟩ := handle_keeps s accepted
  have hlisted : Listed c (s.handle accepted) := h.congr hctx hmapped hhandling
  cases hphase : s.phase with
  | handling source seq =>
    simp only [stepCalls, hphase]
    split
    · exact ⟨guarded_cons.mpr ⟨h.connectedAt hphase, guarded_nil⟩, hlisted⟩
    · exact ⟨guarded_nil, hlisted⟩
  | _ =>
    simp only [stepCalls, hphase]
    exact ⟨guarded_nil, hlisted⟩

theorem Listed.step (h : Listed c s) (i : Step) :
    Guarded TypedContext.step Matches c (stepCalls s i) ∧
      Listed (run TypedContext.step c (stepCalls s i)) (s.step i) := by
  cases i with
  | attempt => exact h.attempt
  | handle accepted => exact h.handle accepted
  | create addr capacity => exact ⟨guarded_nil, h.create addr capacity⟩
  | poll input => exact ⟨guarded_nil, h.poll input⟩
  | unlink addr => exact ⟨guarded_nil, h.congr rfl rfl fun _ _ => id⟩
  | writer n op => exact ⟨guarded_nil, h.congr rfl rfl fun _ _ => id⟩

/-- The calls of a whole run, and the context they lead to. -/
theorem Listed.run (h : Listed c s) (steps : List Step) :
    Guarded TypedContext.step Matches c (systemCalls s steps) ∧
      Listed (Transition.run TypedContext.step c (systemCalls s steps))
        (Transition.run System.step s steps) := by
  induction steps generalizing c s with
  | nil => exact ⟨guarded_nil, h⟩
  | cons i steps ih =>
    obtain ⟨hguarded, hlisted⟩ := h.step i
    obtain ⟨hrest, hend⟩ := ih hlisted
    rw [systemCalls, run_append]
    exact ⟨guarded_append.mpr ⟨hguarded, hrest⟩, hend⟩

theorem listed_again (s : System) (actionQueues : List String) :
    Listed .new (s.again actionQueues) := by
  refine ⟨rfl, rfl, ?_, fun _ h => absurd h List.not_mem_nil⟩
  intro source seq hhandling
  have hhand : (beginAdding actionQueues).inHand = [] := System.inHand_startup (some actionQueues)
  have hphase : beginAdding actionQueues = .handling source seq := hhandling
  rw [hphase] at hhand
  cases hhand

end Gateway

/-- In every run of a strategy runner the source ids are handed out once, every publish is
at the type of its writer, and every cast but those by an id from an earlier run is at the type
of its reader; all casts are exactly if no event is read by an id from an earlier run while its
source is one of another type, so always in the first run. In every run of a trade gateway
runner, whatever it was used for before, all of it holds. The calls are those that make the
context of the run. -/
theorem pointers_read_at_queue_type_iff (config : RunnerConfig) (before : List Launch)
    (launch : Launch) :
    (TypeSafe (queueCalls (((StrategyRunner.new config).afterRuns before).launchCalls launch)) ↔
      Guarded Session.step (MeetsItsType ((StrategyRunner.new config).afterRuns before))
        (((StrategyRunner.new config).afterRuns before).relaunched launch) launch.events) ∧
    (before = [] →
      TypeSafe (queueCalls (((StrategyRunner.new config).afterRuns before).launchCalls launch))) ∧
    (new.sourceIds (queueCalls
      (((StrategyRunner.new config).afterRuns before).launchCalls launch))).Pairwise (· < ·) ∧
    Guarded step
      (fun c call => c.Matches call ∨ StaleCast ((StrategyRunner.new config).afterRuns before) call)
      new (queueCalls (((StrategyRunner.new config).afterRuns before).launchCalls launch)) ∧
    (run step new (queueCalls
        (((StrategyRunner.new config).afterRuns before).launchCalls launch))).ctx =
      (((StrategyRunner.new config).afterRuns before).runOnce launch).ctx ∧
    ∀ (s : TradeGatewayRunner.System) (actionQueues : List String)
      (steps : List TradeGatewayRunner.Step),
      TypeSafe (systemCalls (s.again actionQueues) steps) ∧
      (run step new (systemCalls (s.again actionQueues) steps)).ctx =
        (run TradeGatewayRunner.System.step (s.again actionQueues) steps).ctx := by
  refine ⟨typeSafe_launchCalls_iff _ launch, ?_, (sourceIds_increase new _).1,
    matches_or_stale_launchCalls _ launch, ctx_launchCalls _ launch, ?_⟩
  · rintro rfl
    refine (typeSafe_launchCalls_iff _ launch).mpr fun _ event _ => ?_
    exact meetsItsType_new config _ event
  · intro s actionQueues steps
    obtain ⟨hguarded, hlisted⟩ := (listed_again s actionQueues).run steps
    exact ⟨typeSafe_iff.mpr hguarded, hlisted.ctx.symm⟩

section Example

def answering : Environment where
  findQueue := fun _ _ => .ok "market/market-gateway/public"
  connectTrade := fun _ _ =>
    .ok ("trade-gateway", "order-event/trade-gateway/all", "trade-event/trade-gateway/all")
  registerQueue := fun _ _ _ => .ok ()
  opened := fun _ => true
  readError := fun _ => .shutdown

def withMaster : StrategyRunner := .new ⟨none, 1, true, "strategy"⟩

/-- No trade gateway has registered yet. -/
def beforeGateway : Environment :=
  { answering with
    connectTrade := fun _ _ => .error (.protocol
      "registry error error=[ActorTypeNotFound \x7b actor_type: \"trade-gateway\" \x7d]") }

/-- A run that subscribes one instrument and ends with the error of the master. A process
that has been told to shut down is told so in every later run. -/
def quotingRun : Launch :=
  ⟨.ok (), ⟨beforeGateway, 1, 1,
    [.subscribeQuote "market-gateway" default, .connectTrade "trade-gateway"], 1, []⟩, []⟩

def orderBytes : Payload where
  book := ⟨default, Vector.replicate _ 0, Vector.replicate _ 0, Vector.replicate _ 0,
    Vector.replicate _ 0, 0, 0, 0, 0, 0, 0, 0, 0⟩
  orderEvent := ⟨default, 1, .active, 0, 5, 0, 0⟩
  tradeEvent := ⟨default, 0, 0, .buy, 0, 0, 0⟩

/-- A run that subscribes nothing, so that its order events come from the first source. -/
def tradingRun : Launch :=
  ⟨.ok (), ⟨answering, 3, 3, [.connectTrade "trade-gateway"], 3, []⟩,
    [(.data 0 orderBytes, ⟨answering, 4, 4, [], 4, []⟩)]⟩

/-- In the second run an order event is read as an order book. -/
theorem order_event_read_as_book :
    (withMaster.runOnce quotingRun).running = false ∧
      ((withMaster.afterRuns [quotingRun]).relaunched tradingRun).ctx.ConnectedAt 0 .orderEvent ∧
      ¬ TypeSafe (queueCalls ((withMaster.afterRuns [quotingRun]).launchCalls tradingRun)) := by
  refine ⟨rfl, rfl, fun hsafe => ?_⟩
  have hreads := (typeSafe_launchCalls_iff _ _).mp hsafe [] _ (List.prefix_refl _) rfl 0 orderBytes
    .orderBook rfl rfl ⟨⟨default, 0⟩, List.mem_singleton_self _, rfl⟩
  cases hreads

end Example

end Nnxt.ElementTypes
