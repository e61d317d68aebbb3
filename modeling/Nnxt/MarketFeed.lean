import Nnxt.Foundation.LastEntry
import Nnxt.MarketSimulator
import Nnxt.StrategyRunner

/-!
# From the simulated market to a strategy

The gateway writes its books into a ring that never waits for a reader; the strategy
reads them through one source for each quote it has subscribed, keeps those of that
instrument and forgets the older ones. It may have been overtaken any number of times.
-/

namespace Nnxt.MarketFeed

set_option autoImplicit false

open Transition RingSystem RingLog CursorLog

structure System where
  gateway : MarketSimulator
  runner : StrategyRunner
  ctx : ActorContext

/-- The calls on the gateway, the events of the strategy and what other processes do to
the ring. -/
inductive Step where
  | subscribe (instrumentId : InstrumentId)
  | unsubscribe (instrumentId : InstrumentId)
  | broadcast (nowNs : UInt64) (answer : Except GatewayError Unit) (times : Nat → WriteTimes)
  | data (sourceId : Nat) (nowNs : UInt64) (calls : List ContextCall)
  | orderEvent (event : OrderEvent) (nowNs : UInt64) (calls : List ContextCall)
  | tradeEvent (event : TradeEvent) (nowNs : UInt64) (calls : List ContextCall)
  | timer (nowNs : UInt64) (calls : List ContextCall)
  | visit (visitor : Nat) (visit : Visit)

namespace System

def withHandler (s : System) (after : StrategyRunner × ActorContext) : System :=
  { s with runner := after.1, ctx := after.2 }

def withRing (s : System) (ring : RingSystem OrderBook) : System :=
  { s with gateway := { s.gateway with ring := ring } }

/-- The reactor polls a source of the market, and the runner handles what it finds. -/
def data (s : System) (sourceId : Nat) (nowNs : UInt64) (calls : List ContextCall) : System :=
  match s.runner.quoteSources.find? fun source => source.sourceId = sourceId with
  | none => s
  | some source =>
    match s.gateway.ring.take sourceId with
    | (_, none) => s
    | (ring, some book) =>
      (s.withRing ring).withHandler
        (s.runner.onOrderBook book source.instrumentId nowNs calls s.ctx)

def step (s : System) : Step → System
  | .subscribe instrumentId => { s with gateway := s.gateway.subscribe instrumentId }
  | .unsubscribe instrumentId => { s with gateway := s.gateway.unsubscribe instrumentId }
  | .broadcast nowNs answer times =>
    { s with gateway := (s.gateway.broadcastOnce nowNs answer times).1 }
  | .data sourceId nowNs calls => s.data sourceId nowNs calls
  | .orderEvent event nowNs calls => s.withHandler (s.runner.onOrderEvent event nowNs calls s.ctx)
  | .tradeEvent event nowNs calls => s.withHandler (s.runner.onTradeEvent event nowNs calls s.ctx)
  | .timer nowNs calls => s.withHandler (s.runner.callback nowNs calls s.ctx)
  | .visit visitor visit => s.withRing (s.gateway.ring.step (visit.ringStep visitor))

end System

/-- One of the sources of the runner for the instrument. -/
def Feeds (sources : List QuoteSource) (i : InstrumentId) (reader : Nat) : Prop :=
  ∃ source ∈ sources, source.sourceId = reader ∧ source.instrumentId = i

instance (sources : List QuoteSource) (i : InstrumentId) :
    DecidablePred (Feeds sources i) := fun _ =>
  inferInstanceAs (Decidable (∃ source ∈ sources, _))

/-- Other processes are not the strategy. -/
def Foreign (sources : List QuoteSource) : Step → Prop
  | .visit visitor _ => ∀ source ∈ sources, source.sourceId ≠ visitor
  | _ => True

def IsBroadcast : Step → Prop
  | .broadcast .. => True
  | _ => False

/-- The last book of the instrument a source of it has been handed. -/
def handedLast (s : System) (i : InstrumentId) : Option OrderBook :=
  (@lastDelivery Nat OrderBook (fun book => book.instrumentId = i) (Feeds s.runner.quoteSources i)
    _ _ (toLog s.gateway.ring).deliveries).map (·.value)

/-- The strategy has just subscribed: nothing has come through its sources, and it has
seen no book. -/
structure Start (s : System) : Prop where
  inv : s.gateway.ring.Inv
  idle : s.gateway.ring.writer.hasPending = false
  sound : Sound (toLog s.gateway.ring)
  ids : (s.runner.quoteSources.map (·.sourceId)).Nodup
  connected : ∀ source ∈ s.runner.quoteSources,
    s.gateway.ring.cursor source.sourceId = some s.gateway.ring.log.length
  fresh : ∀ d ∈ s.gateway.ring.handed, ∀ source ∈ s.runner.quoteSources,
    d.reader ≠ source.sourceId
  market : s.runner.state.market = []

/-- `first` is where the sources have joined. -/
structure Inv (sources : List QuoteSource) (first : Nat) (s : System) : Prop where
  inv : s.gateway.ring.Inv
  idle : s.gateway.ring.writer.hasPending = false
  quotes : s.runner.quoteSources = sources
  following : ∀ i r, Feeds sources i r →
    Following (fun book : OrderBook => book.instrumentId = i) (Feeds sources i)
      s.gateway.ring.ring.capacity.toNat first (toLog s.gateway.ring)
  view : ∀ i, s.runner.state.marketView i = handedLast s i

section Runner
variable (r : StrategyRunner) (nowNs : UInt64) (calls : List ContextCall) (ctx : ActorContext)

theorem market_callback : (r.callback nowNs calls ctx).1.state.market = r.state.market := by
  rw [StrategyRunner.state_callback]
  generalize r.callbackActions nowNs calls = actions
  induction actions using List.reverseRecOn with
  | nil => rfl
  | append_singleton actions action ih =>
    rw [List.foldl_append]
    exact ih

theorem marketView_callback (i : InstrumentId) :
    (r.callback nowNs calls ctx).1.state.marketView i = r.state.marketView i := by
  rw [RunnerState.marketView, market_callback]
  rfl

theorem quoteSources_callback :
    (r.callback nowNs calls ctx).1.quoteSources = r.quoteSources := rfl

theorem marketView_onOrderBook (book : OrderBook) (source i : InstrumentId) :
    (r.onOrderBook book source nowNs calls ctx).1.state.marketView i =
      if source = i ∧ book.instrumentId = i then some book else r.state.marketView i := by
  unfold StrategyRunner.onOrderBook
  split
  · rename_i hother
    rw [if_neg]
    rintro ⟨rfl, hbook⟩
    exact hother hbook
  · rename_i hsame
    rw [not_not] at hsame
    rw [marketView_callback, RunnerState.marketView_updateMarket, hsame]
    by_cases hi : i = source
    · subst hi
      rw [if_pos rfl, if_pos ⟨rfl, rfl⟩]
    · rw [if_neg hi, if_neg fun hboth => hi hboth.1.symm]

theorem quoteSources_onOrderBook (book : OrderBook) (source : InstrumentId) :
    (r.onOrderBook book source nowNs calls ctx).1.quoteSources = r.quoteSources := by
  unfold StrategyRunner.onOrderBook
  split
  · rfl
  · exact quoteSources_callback _ nowNs calls ctx

theorem onOrderEvent_quotes (event : OrderEvent) (i : InstrumentId) :
    (r.onOrderEvent event nowNs calls ctx).1.state.marketView i = r.state.marketView i ∧
      (r.onOrderEvent event nowNs calls ctx).1.quoteSources = r.quoteSources := by
  unfold StrategyRunner.onOrderEvent
  dsimp only
  split
  · exact ⟨marketView_callback _ nowNs calls ctx i, rfl⟩
  · exact ⟨rfl, rfl⟩

theorem marketView_applyTradeEvent (state : RunnerState) (event : TradeEvent) (i : InstrumentId) :
    (state.applyTradeEvent event).1.marketView i = state.marketView i := by
  unfold RunnerState.applyTradeEvent
  split <;> rfl

theorem onTradeEvent_quotes (event : TradeEvent) (i : InstrumentId) :
    (r.onTradeEvent event nowNs calls ctx).1.state.marketView i = r.state.marketView i ∧
      (r.onTradeEvent event nowNs calls ctx).1.quoteSources = r.quoteSources := by
  have happlied := marketView_applyTradeEvent r.state event i
  unfold StrategyRunner.onTradeEvent
  dsimp only
  split
  · exact ⟨(marketView_callback _ nowNs calls ctx i).trans happlied, rfl⟩
  · exact ⟨happlied, rfl⟩

end Runner

section Ring
variable {T : Type} {s : RingSystem T} {P : T → Prop} {Q : Nat → Prop} [DecidablePred P]
  [DecidablePred Q] {start : Nat}

theorem eq_drop_of_mem {i : RingStep T} {reader : Nat} (h : Op.detach reader ∈ logOps s i) :
    i = .drop reader := by
  cases i with
  | drop other =>
    rw [logOps, List.mem_singleton] at h
    cases h
    rfl
  | commit =>
    simp only [logOps] at h
    split at h <;> simp at h
  | connect other =>
    simp only [logOps] at h
    split at h <;> simp at h
  | read other passes => cases passes <;> simp [logOps] at h
  | readTimeout other timeout elapsed => cases elapsed <;> simp [logOps] at h
  | _ => simp [logOps] at h

/-- Steps of a ring that leave the readers attached keep what these are due. -/
theorem following_step (h : Following P Q s.ring.capacity.toNat start (toLog s)) (hinv : s.Inv)
    (hidle : s.writer.hasPending = false) {r : Nat} (hr : Q r) (i : RingStep T)
    (hkept : ∀ reader, i = .drop reader → ¬Q reader) :
    Following P Q (s.step i).ring.capacity.toNat start (toLog (s.step i)) := by
  have hbetween : BetweenWrites s i := by
    cases i <;> first | exact trivial | exact hidle
  rw [hinv.capacity_step, toLog_step hinv hbetween]
  refine h.run hr _ fun op hop => ?_
  cases op with
  | detach reader => exact hkept reader (eq_drop_of_mem hop)
  | _ => trivial

/-- `try_read` finds nothing, or hands one more entry to its reader. -/
theorem take_cases (h : s.Inv) (reader : Nat) :
    s.take reader = (s, none) ∨
      ∃ value position, (s.take reader).2 = some value ∧
        (toLog (s.take reader).1).deliveries =
          (toLog s).deliveries ++ [⟨reader, position, value⟩] := by
  cases h.tryRead_outcome reader with
  | nothing hs hidle =>
    left
    cases hr : s.readers reader with
    | none => simp only [RingSystem.take, hs, hr, Option.bind_none]
    | some slot =>
      simp only [RingSystem.take, hs, hr, Ring.tryRead_caughtUp (hidle slot hr), Option.bind_some,
        Option.map_none]
  | entry slot hr hb hs =>
    right
    refine ⟨(s.ring.storeReader slot (s.ring.served slot + 1)).load (s.ring.served slot),
      (s.ring.served slot).toNat, ?_, ?_⟩
    · rw [RingSystem.take, hr, Option.bind_some, Ring.tryRead_behind hb, Option.map_some]
    · rw [RingSystem.take, hs, toLog, toLog, RingSystem.advance, RingSystem.received,
        List.map_append]
      rfl

/-- What is done to a ring in the name of another reader hands nothing to the readers. -/
theorem lastDelivery_visit (h : s.Inv) {visitor : Nat} (hvisitor : ¬Q visitor) (v : Visit) :
    @lastDelivery Nat T P Q _ _ (toLog (s.step (v.ringStep visitor))).deliveries =
      @lastDelivery Nat T P Q _ _ (toLog s).deliveries := by
  cases v with
  | connect =>
    simp only [Visit.ringStep, RingSystem.step, RingSystem.connect]
    split <;> rfl
  | tryRead =>
    rcases take_cases h visitor with hnone | ⟨value, position, -, hlog⟩
    · have hs : s.step (.tryRead visitor) = s := congrArg Prod.fst hnone
      rw [Visit.ringStep, hs]
    · rw [Visit.ringStep]
      have hlog' : (toLog (s.step (.tryRead visitor))).deliveries = _ := hlog
      rw [hlog', lastDelivery_append_of_not _ fun hboth => hvisitor hboth.1]
  | drop =>
    simp only [Visit.ringStep, RingSystem.step]
    split <;> rfl

theorem deliveries_writes (values : List T) :
    (toLog (s.writes values)).deliveries = (toLog s).deliveries := by
  induction values generalizing s with
  | nil => rfl
  | cons value values ih => exact @ih (s.step (.write value))

theorem following_writes (h : Following P Q s.ring.capacity.toNat start (toLog s)) (hinv : s.Inv)
    (hidle : s.writer.hasPending = false) {r : Nat} (hr : Q r) {values : List T}
    (hfew : (s.writes values).log.length < 2 ^ 64) :
    Following P Q (s.writes values).ring.capacity.toNat start (toLog (s.writes values)) := by
  induction values generalizing s with
  | nil => exact h
  | cons value values ih =>
    have hle : (s.step (.write value)).log.length ≤ (s.writes (value :: values)).log.length := by
      have hlog := log_writes (s.step (.write value)) values
      have hsame : s.writes (value :: values) = (s.step (.write value)).writes values := rfl
      rw [hsame, hlog, List.length_append]
      exact Nat.le_add_right _ _
    exact ih (following_step h hinv hidle hr (.write value) nofun)
      (hinv.step _ (Nat.lt_of_le_of_lt hle hfew)) rfl hfew

end Ring

section Steps
variable {sources : List QuoteSource} {first : Nat} {s : System}

theorem feeds_iff_of_mem (hids : (sources.map (·.sourceId)).Nodup) {source : QuoteSource}
    (hsource : source ∈ sources) (i : InstrumentId) :
    Feeds sources i source.sourceId ↔ source.instrumentId = i := by
  constructor
  · rintro ⟨other, hother, hid, rfl⟩
    rw [List.inj_on_of_nodup_map hids hother hsource hid]
  · intro hi
    exact ⟨source, hsource, rfl, hi⟩

theorem Inv.withHandler (h : Inv sources first s) {after : StrategyRunner × ActorContext}
    (hview : ∀ i, after.1.state.marketView i = s.runner.state.marketView i)
    (hquotes : after.1.quoteSources = s.runner.quoteSources) :
    Inv sources first (s.withHandler after) := by
  refine ⟨h.inv, h.idle, hquotes.trans h.quotes, h.following, fun i => ?_⟩
  have hold := h.view i
  simp only [handedLast, System.withHandler, hquotes] at hold ⊢
  rw [hview, hold]

theorem Inv.data (h : Inv sources first s) (hids : (sources.map (·.sourceId)).Nodup)
    (sourceId : Nat) (nowNs : UInt64) (calls : List ContextCall) :
    Inv sources first (s.data sourceId nowNs calls) := by
  unfold System.data
  split
  · exact h
  · rename_i source hfound
    have hmem : source ∈ sources := h.quotes ▸ List.mem_of_find?_eq_some hfound
    have hid : source.sourceId = sourceId := by simpa using List.find?_some hfound
    subst hid
    rcases take_cases h.inv source.sourceId with hnone | ⟨book, position, hbook, hlog⟩
    · rw [hnone]
      exact h
    · have hpair : s.gateway.ring.take source.sourceId =
          ((s.gateway.ring.take source.sourceId).1, some book) := by rw [← hbook]
      rw [hpair]
      have hquotes := quoteSources_onOrderBook s.runner nowNs calls s.ctx book source.instrumentId
      refine ⟨?_, ?_, hquotes.trans h.quotes, ?_, ?_⟩
      · refine h.inv.step (.tryRead source.sourceId) ?_
        rw [tryRead_log]
        exact h.inv.stored.few
      · exact (@visit_hasPending _ source.sourceId s.gateway.ring .tryRead).trans h.idle
      · exact fun i r hr => following_step (h.following i r hr) h.inv h.idle hr _ nofun
      · intro i
        have hold := h.view i
        simp only [handedLast, System.withHandler, System.withRing, hquotes, hlog, h.quotes]
          at hold ⊢
        rw [marketView_onOrderBook]
        have hfeeds := feeds_iff_of_mem hids hmem i
        by_cases hboth : source.instrumentId = i ∧ book.instrumentId = i
        · rw [if_pos hboth, lastDelivery_append_of _ ⟨hfeeds.mpr hboth.1, hboth.2⟩, Option.map_some]
        · have hother : ¬(Feeds sources i source.sourceId ∧ book.instrumentId = i) :=
            fun hdelivered => hboth ⟨hfeeds.mp hdelivered.1, hdelivered.2⟩
          rw [if_neg hboth, lastDelivery_append_of_not _ hother, hold]

theorem Inv.visit (h : Inv sources first s) {visitor : Nat}
    (hvisitor : ∀ source ∈ sources, source.sourceId ≠ visitor) (v : Visit) :
    Inv sources first (s.withRing (s.gateway.ring.step (v.ringStep visitor))) := by
  have hforeign : ∀ i, ¬Feeds sources i visitor := by
    rintro i ⟨source, hsource, hid, -⟩
    exact hvisitor source hsource hid
  refine ⟨?_, ?_, h.quotes, ?_, ?_⟩
  · exact h.inv.step _ (by rw [visit_log]; exact h.inv.stored.few)
  · exact (visit_hasPending s.gateway.ring v).trans h.idle
  · intro i r hr
    refine following_step (h.following i r hr) h.inv h.idle hr _ fun reader hdrop => ?_
    cases v with
    | drop =>
      cases hdrop
      exact hforeign i
    | _ => cases hdrop
  · intro i
    have hold := h.view i
    simp only [handedLast, System.withRing, h.quotes] at hold ⊢
    rw [lastDelivery_visit h.inv (hforeign i) v, hold]

theorem Inv.broadcast (h : Inv sources first s) (nowNs : UInt64)
    (answer : Except GatewayError Unit) (times : Nat → WriteTimes)
    (hfew : (s.gateway.broadcastOnce nowNs answer times).1.ring.log.length < 2 ^ 64) :
    Inv sources first (s.step (.broadcast nowNs answer times)) := by
  rcases s.gateway.broadcastOnce_cases nowNs answer times with ⟨error, hfailed⟩ | ⟨-, books, hsent⟩
  · rw [System.step, hfailed]
    exact h
  · rw [hsent.ring] at hfew
    refine ⟨?_, ?_, h.quotes, ?_, ?_⟩
    · simp only [System.step, hsent.ring]
      exact h.inv.writes hfew
    · simp only [System.step, hsent.ring]
      exact hasPending_writes h.idle books
    · intro i r hr
      simp only [System.step, hsent.ring]
      exact following_writes (h.following i r hr) h.inv h.idle hr hfew
    · intro i
      have hold := h.view i
      simp only [handedLast, System.step, hsent.ring, deliveries_writes] at hold ⊢
      exact hold

theorem Inv.step (h : Inv sources first s) (hids : (sources.map (·.sourceId)).Nodup) {i : Step}
    (hforeign : Foreign sources i) (hfew : (s.step i).gateway.ring.log.length < 2 ^ 64) :
    Inv sources first (s.step i) := by
  cases i with
  | subscribe id => exact ⟨h.inv, h.idle, h.quotes, h.following, h.view⟩
  | unsubscribe id => exact ⟨h.inv, h.idle, h.quotes, h.following, h.view⟩
  | broadcast nowNs answer times => exact h.broadcast nowNs answer times hfew
  | data sourceId nowNs calls => exact h.data hids sourceId nowNs calls
  | orderEvent event nowNs calls =>
    have hkept := onOrderEvent_quotes s.runner nowNs calls s.ctx event
    exact h.withHandler (fun i => (hkept i).1) (hkept default).2
  | tradeEvent event nowNs calls =>
    have hkept := onTradeEvent_quotes s.runner nowNs calls s.ctx event
    exact h.withHandler (fun i => (hkept i).1) (hkept default).2
  | timer nowNs calls =>
    exact h.withHandler (fun i => marketView_callback s.runner nowNs calls s.ctx i)
      (quoteSources_callback s.runner nowNs calls s.ctx)
  | visit visitor v => exact h.visit hforeign v

/-- Only a broadcast writes. -/
theorem log_step_of_quiet {i : Step} (hquiet : ¬IsBroadcast i) :
    (s.step i).gateway.ring.log = s.gateway.ring.log := by
  cases i with
  | broadcast nowNs answer times => exact absurd trivial hquiet
  | data sourceId nowNs calls =>
    simp only [System.step, System.data]
    split
    · rfl
    · split
      · rfl
      · rename_i ring book htake
        have hring : ring = s.gateway.ring.step (.tryRead sourceId) := (congrArg Prod.fst htake).symm
        simp only [System.withHandler, System.withRing, hring, tryRead_log]
  | visit visitor v => exact visit_log s.gateway.ring v
  | _ => rfl

theorem log_broadcast {nowNs : UInt64} {answer : Except GatewayError Unit}
    {times : Nat → WriteTimes} (hsent : (s.gateway.broadcastOnce nowNs answer times).2 = .ok ()) :
    ∃ books, (s.step (.broadcast nowNs answer times)).gateway.ring.log =
        s.gateway.ring.log ++ books ∧
      books.map (·.instrumentId) = s.gateway.subscriptions.instruments ∧
      ∀ book ∈ books, WellFormed book := by
  rcases s.gateway.broadcastOnce_cases nowNs answer times with ⟨error, hfailed⟩ | ⟨-, books, h⟩
  · rw [hfailed] at hsent
    cases hsent
  · refine ⟨books, ?_, h.instruments, h.wellFormed⟩
    simp only [System.step, h.ring, log_writes]

theorem log_prefix_step (s : System) (i : Step) :
    s.gateway.ring.log <+: (s.step i).gateway.ring.log := by
  by_cases hquiet : IsBroadcast i
  · cases i with
    | broadcast nowNs answer times =>
      rcases s.gateway.broadcastOnce_cases nowNs answer times with
        ⟨error, hfailed⟩ | ⟨-, books, h⟩
      · rw [System.step, hfailed]
      · simp only [System.step, h.ring, log_writes]
        exact List.prefix_append _ _
    | _ => cases hquiet
  · rw [log_step_of_quiet hquiet]

theorem capacity_step (h : s.gateway.ring.Inv) (i : Step) :
    (s.step i).gateway.ring.ring.capacity = s.gateway.ring.ring.capacity := by
  cases i with
  | broadcast nowNs answer times =>
    rcases s.gateway.broadcastOnce_cases nowNs answer times with
      ⟨error, hfailed⟩ | ⟨-, books, hsent⟩
    · rw [System.step, hfailed]
    · simp only [System.step, hsent.ring, capacity_writes]
  | data sourceId nowNs calls =>
    simp only [System.step, System.data]
    split
    · rfl
    · split
      · rfl
      · rename_i ring book htake
        have hring : ring = s.gateway.ring.step (.tryRead sourceId) := (congrArg Prod.fst htake).symm
        simp only [System.withHandler, System.withRing, hring]
        exact h.capacity_step _
  | visit visitor v => exact h.capacity_step _
  | _ => rfl

end Steps

section Runs
variable {s : System} {is : List Step}

theorem Start.inv_start (h : Start s) :
    Inv s.runner.quoteSources s.gateway.ring.log.length s := by
  refine ⟨h.inv, h.idle, rfl, ?_, ?_⟩
  · intro i r hr
    refine ⟨h.sound, ?_, upToDate_of_start (Nat.le_refl _)⟩
    rintro r ⟨source, hsource, rfl, -⟩ hnone
    have hcursor : s.gateway.ring.cursor source.sourceId = none := hnone
    rw [h.connected source hsource] at hcursor
    cases hcursor
  · intro i
    have hnothing : ((toLog s.gateway.ring).deliveries.filter fun d =>
        Feeds s.runner.quoteSources i d.reader ∧ d.value.instrumentId = i) = [] := by
      rw [List.filter_eq_nil_iff]
      intro delivery hdelivery hboth
      obtain ⟨d, hd, rfl⟩ := List.mem_map.mp hdelivery
      obtain ⟨⟨source, hsource, hid, -⟩, -⟩ := of_decide_eq_true hboth
      exact h.fresh d hd source hsource hid.symm
    rw [handedLast, lastDelivery, hnothing, RunnerState.marketView, h.market]
    rfl

theorem Start.run (h : Start s) (hforeign : ∀ i ∈ is, Foreign s.runner.quoteSources i)
    (hfew : (Transition.run System.step s is).gateway.ring.log.length < 2 ^ 64) :
    Inv s.runner.quoteSources s.gateway.ring.log.length (Transition.run System.step s is) ∧
      (Transition.run System.step s is).gateway.ring.ring.capacity =
        s.gateway.ring.ring.capacity := by
  let Kept : System → Prop := fun t =>
    Inv s.runner.quoteSources s.gateway.ring.log.length t ∧
      t.gateway.ring.ring.capacity = s.gateway.ring.ring.capacity
  let Few : System → Prop := fun t => t.gateway.ring.log.length < 2 ^ 64
  have hback : ∀ t i, Few (System.step t i) → Few t :=
    fun t i hlater => Nat.lt_of_le_of_lt (log_prefix_step t i).length_le hlater
  have hkeep : ∀ t i, Kept t → Few (System.step t i) → Foreign s.runner.quoteSources i →
      Kept (System.step t i) :=
    fun t i ht hlater hi => ⟨ht.1.step h.ids hi hlater, (capacity_step ht.1.inv i).trans ht.2⟩
  exact @run_of_guarded_within System Step System.step Kept Few
    (fun _ i => Foreign s.runner.quoteSources i) hback hkeep s is ⟨h.inv_start, rfl⟩ hfew
    (guarded_of_forall fun i hi _ => hforeign i hi)

/-- Whatever has been skipped on the way: the last book of an instrument is what the
strategy sees once its sources are past it, if the ring has retained it. -/
theorem view_current (h : Start s) (hforeign : ∀ i ∈ is, Foreign s.runner.quoteSources i)
    (hfew : (Transition.run System.step s is).gateway.ring.log.length < 2 ^ 64)
    {i : InstrumentId} {position : Nat} {book : OrderBook}
    (hlast : IsLast (fun book => book.instrumentId = i)
      (Transition.run System.step s is).gateway.ring.log position book)
    (hlater : s.gateway.ring.log.length ≤ position)
    (hretained : (Transition.run System.step s is).gateway.ring.log.length ≤
      position + s.gateway.ring.ring.capacity.toNat)
    (hquoted : ∃ source ∈ s.runner.quoteSources, source.instrumentId = i)
    (hread : ∀ source ∈ s.runner.quoteSources, source.instrumentId = i →
      (Transition.run System.step s is).gateway.ring.unread source.sourceId = []) :
    (Transition.run System.step s is).runner.state.marketView i = some book := by
  obtain ⟨hinv, hcapacity⟩ := h.run hforeign hfew
  obtain ⟨source, hsource, hi⟩ := hquoted
  rw [← hcapacity] at hretained
  generalize Transition.run System.step s is = t at *
  rw [hinv.view, handedLast, hinv.quotes]
  refine (hinv.following i _ ⟨source, hsource, rfl, hi⟩).upToDate position book hlast hlater
    hretained ?_
  rintro r ⟨other, hother, rfl, hi'⟩ c hc
  have hc' : t.gateway.ring.cursor other.sourceId = some c := hc
  have hall := hread other hother hi'
  rw [unread, hc', Option.getD_some, List.drop_eq_nil_iff] at hall
  exact Nat.lt_of_lt_of_le hlast.lt hall

theorem log_run_of_quiet (hquiet : ∀ i ∈ is, ¬IsBroadcast i) :
    (Transition.run System.step s is).gateway.ring.log = s.gateway.ring.log := by
  induction is generalizing s with
  | nil => rfl
  | cons i is ih =>
    obtain ⟨hi, his⟩ := List.forall_mem_cons.mp hquiet
    rw [run_cons, ih his, log_step_of_quiet hi]

theorem log_prefix_run (s : System) (is : List Step) :
    s.gateway.ring.log <+: (Transition.run System.step s is).gateway.ring.log := by
  induction is generalizing s with
  | nil => exact List.prefix_refl _
  | cons i is ih => exact (log_prefix_step s i).trans (ih (s.step i))

end Runs

/-- After a broadcast to no more instruments than the ring retains, a strategy that has
read all there is sees the book of that broadcast for every instrument it quotes, however
far behind it had fallen. -/
theorem sees_last_broadcast {s : System} (hs : Start s) {is : List Step} {nowNs : UInt64}
    {answer : Except GatewayError Unit} {times : Nat → WriteTimes} {js : List Step}
    (hforeign : ∀ i ∈ is ++ .broadcast nowNs answer times :: js, Foreign s.runner.quoteSources i)
    (hfew : (run System.step s (is ++ .broadcast nowNs answer times :: js)).gateway.ring.log.length
      < 2 ^ 64)
    (hsent : ((run System.step s is).gateway.broadcastOnce nowNs answer times).2 = .ok ())
    (hquiet : ∀ j ∈ js, ¬IsBroadcast j)
    (hfits : (run System.step s is).gateway.subscriptions.instruments.length ≤
      s.gateway.ring.ring.capacity.toNat)
    {i : InstrumentId} (hsubscribed : (run System.step s is).gateway.subscriptions.isSubscribed i)
    (hquoted : ∃ source ∈ s.runner.quoteSources, source.instrumentId = i)
    (hread : ∀ source ∈ s.runner.quoteSources, source.instrumentId = i →
      (run System.step s (is ++ .broadcast nowNs answer times :: js)).gateway.ring.unread
        source.sourceId = []) :
    ∃ book ∈ (run System.step s (is ++ .broadcast nowNs answer times :: js)).gateway.ring.log.drop
        (run System.step s is).gateway.ring.log.length,
      book.instrumentId = i ∧ WellFormed book ∧
        (run System.step s (is ++ .broadcast nowNs answer times :: js)).runner.state.marketView i =
          some book := by
  obtain ⟨books, hlog, hids, hwell⟩ := log_broadcast hsent
  have hfinal : (run System.step s (is ++ .broadcast nowNs answer times :: js)).gateway.ring.log =
      (run System.step s is).gateway.ring.log ++ books := by
    rw [run_append, run_cons, log_run_of_quiet hquiet, hlog]
  rw [SubscriptionManager.isSubscribed_iff, ← hids] at hsubscribed
  obtain ⟨book, hbook, rfl⟩ := List.mem_map.mp hsubscribed
  have hnodup := (run System.step s is).gateway.subscriptions.nodup
  rw [← hids] at hnodup hfits
  obtain ⟨position, hafter, hlast⟩ :=
    @isLast_of_mem_append OrderBook InstrumentId (·.instrumentId)
      (run System.step s is).gateway.ring.log books hnodup book hbook
  refine ⟨book, ?_, rfl, hwell book hbook, ?_⟩
  · rw [hfinal, List.drop_left]
    exact hbook
  · rw [← hfinal] at hlast
    refine view_current hs hforeign hfew hlast ?_ ?_ hquoted hread
    · exact Nat.le_trans (log_prefix_run s is).length_le hafter
    · rw [List.length_map] at hfits
      rw [hfinal, List.length_append]
      omega

/-- Whether the instrument is subscribed after a call, if it was before as told. -/
def subscribedBy (i : InstrumentId) (subscribed : Bool) : Step → Bool
  | .subscribe instrumentId => subscribed || instrumentId = i
  | .unsubscribe instrumentId => subscribed && instrumentId ≠ i
  | _ => subscribed

/-- One for a broadcast that is not given up and finds the instrument subscribed. -/
def broadcastTo (s : System) (subscribed : Bool) : Step → Nat
  | .broadcast nowNs answer times =>
    if subscribed ∧ (s.gateway.broadcastOnce nowNs answer times).2 = .ok () then 1 else 0
  | _ => 0

/-- The broadcasts of a run that find the instrument subscribed. -/
def broadcastsOf (i : InstrumentId) (s : System) (subscribed : Bool) : List Step → Nat
  | [] => 0
  | call :: calls =>
    broadcastTo s subscribed call +
      broadcastsOf i (s.step call) (subscribedBy i subscribed call) calls

section Broadcasts
variable {s : System}

theorem isSubscribed_step (s : System) (i : InstrumentId) (call : Step) :
    (s.step call).gateway.subscriptions.isSubscribed i =
      subscribedBy i (s.gateway.subscriptions.isSubscribed i) call := by
  cases call with
  | subscribe id =>
    rw [Bool.eq_iff_iff, SubscriptionManager.isSubscribed_iff]
    refine (SubscriptionManager.mem_subscribe _ _ _).trans ?_
    simp only [subscribedBy, Bool.or_eq_true, decide_eq_true_eq,
      SubscriptionManager.isSubscribed_iff]
    exact or_comm.trans (or_congr_right eq_comm)
  | unsubscribe id =>
    rw [Bool.eq_iff_iff, SubscriptionManager.isSubscribed_iff]
    refine (SubscriptionManager.mem_unsubscribe _ _ _).trans ?_
    simp only [subscribedBy, Bool.and_eq_true, decide_eq_true_eq,
      SubscriptionManager.isSubscribed_iff]
    exact and_comm.trans (and_congr_right fun _ => ne_comm)
  | broadcast nowNs answer times =>
    rcases s.gateway.broadcastOnce_cases nowNs answer times with ⟨error, hfailed⟩ | ⟨-, books, h⟩
    · rw [System.step, hfailed]
      rfl
    · simp only [System.step, h.subscriptions, subscribedBy]
  | data sourceId nowNs calls =>
    simp only [System.step, System.data]
    split
    · rfl
    · split <;> rfl
  | _ => rfl

/-- A broadcast writes one book of an instrument that is subscribed, and none of any other. -/
theorem countP_broadcast (i : InstrumentId) {nowNs : UInt64} {answer : Except GatewayError Unit}
    {times : Nat → WriteTimes} (hsent : (s.gateway.broadcastOnce nowNs answer times).2 = .ok ()) :
    (s.step (.broadcast nowNs answer times)).gateway.ring.log.countP (·.instrumentId = i) =
      s.gateway.ring.log.countP (·.instrumentId = i) +
        if s.gateway.subscriptions.isSubscribed i then 1 else 0 := by
  obtain ⟨books, hlog, hids, -⟩ := log_broadcast hsent
  have hcount : books.countP (·.instrumentId = i) =
      s.gateway.subscriptions.instruments.count i := by
    rw [← hids, List.count, List.countP_map]
    rfl
  rw [hlog, List.countP_append, hcount, s.gateway.subscriptions.nodup.count]
  simp only [SubscriptionManager.isSubscribed_iff]

theorem countP_step (s : System) (i : InstrumentId) (call : Step) :
    (s.step call).gateway.ring.log.countP (·.instrumentId = i) =
      s.gateway.ring.log.countP (·.instrumentId = i) +
        broadcastTo s (s.gateway.subscriptions.isSubscribed i) call := by
  cases call with
  | broadcast nowNs answer times =>
    rcases s.gateway.broadcastOnce_cases nowNs answer times with ⟨error, hfailed⟩ | ⟨hsent, -⟩
    · have hkept : (s.step (.broadcast nowNs answer times)).gateway = s.gateway := by
        rw [System.step, hfailed]
      simp [broadcastTo, hkept, hfailed]
    · rw [countP_broadcast i hsent]
      simp only [broadcastTo, hsent, and_true]
  | _ => exact congrArg (List.countP _) (log_step_of_quiet id)

/-- The statistics count what is written. -/
theorem count_step (s : System) (call : Step) : ∃ written,
    (s.step call).gateway.ring.log.length = s.gateway.ring.log.length + written ∧
      (s.step call).gateway.stats.count = s.gateway.stats.count + UInt64.ofNat written := by
  cases call with
  | broadcast nowNs answer times =>
    rcases s.gateway.broadcastOnce_cases nowNs answer times with ⟨error, hfailed⟩ | ⟨-, books, h⟩
    · refine ⟨0, ?_, ?_⟩
      · rw [System.step, hfailed]
        rfl
      · rw [System.step, hfailed]
        exact (UInt64.add_zero _).symm
    · refine ⟨books.length, ?_, h.count⟩
      simp only [System.step, h.ring, log_writes, List.length_append]
  | data sourceId nowNs calls =>
    refine ⟨0, congrArg List.length (log_step_of_quiet id), ?_⟩
    refine Eq.trans ?_ (UInt64.add_zero _).symm
    simp only [System.step, System.data]
    split
    · rfl
    · split <;> rfl
  | _ => exact ⟨0, congrArg List.length (log_step_of_quiet id), (UInt64.add_zero _).symm⟩

end Broadcasts

/-- Over every run, there are as many books of an instrument as there were broadcasts that
found it subscribed by the last call for it, and the statistics count all of them. -/
theorem one_book_each (s : System) (is : List Step) (i : InstrumentId) :
    (run System.step s is).gateway.ring.log.countP (·.instrumentId = i) =
        s.gateway.ring.log.countP (·.instrumentId = i) +
          broadcastsOf i s (s.gateway.subscriptions.isSubscribed i) is ∧
      (run System.step s is).gateway.stats.count = s.gateway.stats.count +
        UInt64.ofNat ((run System.step s is).gateway.ring.log.length -
          s.gateway.ring.log.length) := by
  induction is generalizing s with
  | nil =>
    rw [run_nil, Nat.sub_self]
    exact ⟨rfl, (UInt64.add_zero _).symm⟩
  | cons call calls ih =>
    obtain ⟨hbooks, hcount⟩ := ih (s.step call)
    obtain ⟨written, hlength, hwritten⟩ := count_step s call
    have hle := (log_prefix_run (s.step call) calls).length_le
    rw [run_cons]
    refine ⟨?_, ?_⟩
    · rw [hbooks, countP_step, isSubscribed_step, broadcastsOf, Nat.add_assoc]
    · rw [hcount, hwritten, UInt64.add_assoc, ← UInt64.ofNat_add]
      congr 2
      omega

def twoBooks : Ring OrderBook :=
  ⟨2, 0, [freeReader], Vector.replicate _ (SimulatedSource.emptyBook default 0 0), Nat.two_pos⟩

/-- A strategy that quotes one instrument, from a ring of two slots. -/
def quoting : System where
  gateway := ⟨RingSystem.step (start twoBooks ⟨0, false⟩) (.connect 0), .new, ⟨7⟩, .default,
    1000000000, 0, false⟩
  runner := { StrategyRunner.new ⟨none, 4, false, "consumer"⟩ with quoteSources := [⟨default, 0⟩] }
  ctx := ActorContext.new

theorem start_quoting : Start quoting := by
  have hcreate : Ring.create 2 1 (SimulatedSource.emptyBook default 0 0) =
      .ok (twoBooks, ⟨0, false⟩) := rfl
  have hfew : (run RingSystem.step (start twoBooks ⟨0, false⟩) [.connect 0]).log.length < 2 ^ 64 :=
    Nat.two_pow_pos 64
  have hbetween : Guarded RingSystem.step BetweenWrites (start twoBooks ⟨0, false⟩) [.connect 0] :=
    guarded_cons.mpr ⟨rfl, guarded_nil⟩
  refine ⟨((inv_start hcreate).run hfew).last, rfl, ?_, by decide, by decide, ?_, rfl⟩
  · exact (refines_of_inv (inv_start hcreate) hbetween sound_empty hfew).sound.last
  · exact List.forall_mem_nil _

def otherId : InstrumentId := ⟨Vector.replicate 64 1⟩

def broadcastNow : Step := .broadcast 1 (.ok ()) fun _ => ⟨1, 2, 3⟩

/-- Two broadcasts to two instruments, before the strategy has read anything. -/
def twoUnread : List Step :=
  [.subscribe default, .subscribe otherId, broadcastNow, broadcastNow]

theorem sees_last_broadcast_overtaken :
    ∃ book ∈ (run System.step quoting
        (twoUnread ++ broadcastNow :: [.data 0 4 [], .data 0 5 []])).gateway.ring.log.drop
          (run System.step quoting twoUnread).gateway.ring.log.length,
      book.instrumentId = default ∧ WellFormed book ∧
        (run System.step quoting
          (twoUnread ++ broadcastNow :: [.data 0 4 [], .data 0 5 []])).runner.state.marketView
            default = some book := by
  refine sees_last_broadcast start_quoting ?_ ?_ ?_ ?_ ?_ ?_ ?_ ?_
  · simp [twoUnread, broadcastNow, Foreign]
  · decide
  · rfl
  · simp [IsBroadcast]
  · decide
  · decide
  · exact ⟨⟨default, 0⟩, List.mem_singleton_self _, rfl⟩
  · decide

end Nnxt.MarketFeed
