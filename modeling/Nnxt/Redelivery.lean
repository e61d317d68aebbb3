import Nnxt.LedgerHistory
import Nnxt.StrategyRunner
import Nnxt.Foundation.Repetition

/-!
# Events delivered more than once

The keys of order events are kept for ever and the window of trade ids moves
only when a trade is accepted, so an event that is refused leaves no trace.
-/

namespace Nnxt.Redelivery

set_option autoImplicit false

open Transition Repetition

inductive Step where
  | actionSent (action : Action) (nowNs : UInt64)
  | orderEvent (event : OrderEvent)
  | tradeEvent (event : TradeEvent)

/-- The state after one call, and what the call returns. -/
def call (s : RunnerState) : Step → RunnerState × Option Bool
  | .actionSent action nowNs => (s.onActionSent action nowNs, none)
  | .orderEvent event => ((s.applyOrderEvent event).1, some (s.applyOrderEvent event).2)
  | .tradeEvent event => ((s.applyTradeEvent event).1, some (s.applyTradeEvent event).2)

def step (s : RunnerState) (i : Step) : RunnerState := (call s i).1

/-- The state of a runner after the given calls. -/
def after (is : List Step) : RunnerState := run step RunnerState.default is

def trades (is : List Step) : List TradeEvent :=
  is.filterMap fun
    | .tradeEvent event => some event
    | _ => none

/-- The ids a trade must have to count as delivered already. -/
def recentIds (is : List Step) : List UInt64 :=
  (Ledger.new.acceptedIds (trades is)).rtake defaultFillWindow

/-- An order event delivered before, however long ago, or a trade whose id is
among the most recently accepted ones. -/
def Repeats (past : List Step) : Step → Prop
  | .actionSent _ _ => False
  | .orderEvent event => .orderEvent event ∈ past
  | .tradeEvent event => event.tradeId ∈ recentIds past

/-- Whatever the strategy would do in its callback, the runner ignores the event. -/
def Ignored (s : RunnerState) (i : Step) : Prop :=
  ∀ (r : StrategyRunner) (nowNs : UInt64) (calls : List ContextCall) (ctx : ActorContext),
    r.state = s →
    match i with
    | .actionSent _ _ => True
    | .orderEvent event => r.onOrderEvent event nowNs calls ctx = (r, ctx)
    | .tradeEvent event => r.onTradeEvent event nowNs calls ctx = (r, ctx)

section Calls
variable {s : RunnerState}

theorem ledger_applyTradeEvent (s : RunnerState) (event : TradeEvent) :
    (s.applyTradeEvent event).1.ledger = (s.ledger.applyTradeEvent event).1 := by
  by_cases h : event.tradeId ∈ s.ledger.fillLedger.seen
  · rw [RunnerState.applyTradeEvent_of_seen s h, Ledger.applyTradeEvent_of_seen s.ledger h]
  · rw [RunnerState.applyTradeEvent_of_new s h]

theorem ledger_run (s : RunnerState) (is : List Step) :
    (run step s is).ledger = s.ledger.applyAll (trades is) := by
  induction is generalizing s with
  | nil => rfl
  | cons i is ih =>
    rw [run_cons, ih]
    cases i with
    | actionSent action nowNs => rfl
    | orderEvent event => rfl
    | tradeEvent event =>
      have hledger : (step s (.tradeEvent event)).ledger = (s.ledger.applyTradeEvent event).1 :=
        ledger_applyTradeEvent s event
      rw [hledger]
      rfl

theorem seenFor_step_subset (s : RunnerState) (i : Step) (orderId : UInt64) :
    s.orderManager.seenFor orderId ⊆ (step s i).orderManager.seenFor orderId := by
  cases i with
  | actionSent action nowNs =>
    exact (OrderManager.seenFor_onActionSent s.orderManager action nowNs orderId).symm.subset
  | orderEvent event =>
    have hseen := OrderManager.seenFor_applyOrderEvent s.orderManager event orderId
    simp only [step, call, RunnerState.applyOrderEvent, hseen]
    split
    · exact Finset.subset_insert _ _
    · exact Finset.Subset.refl _
  | tradeEvent event =>
    simp only [step, call]
    by_cases h : event.tradeId ∈ s.ledger.fillLedger.seen
    · rw [RunnerState.applyTradeEvent_of_seen s h]
    · rw [RunnerState.applyTradeEvent_of_new s h, OrderManager.seenFor_applyTradeEvent]

theorem key_mem_step (s : RunnerState) (event : OrderEvent) :
    event.key ∈ (step s (.orderEvent event)).orderManager.seenFor event.orderId := by
  have hseen := OrderManager.seenFor_applyOrderEvent s.orderManager event event.orderId
  simp only [step, call, RunnerState.applyOrderEvent, hseen, if_true]
  exact Finset.mem_insert_self _ _

/-- The key of a delivered order event is never forgotten. -/
theorem key_mem_run {is : List Step} {event : OrderEvent} (h : .orderEvent event ∈ is) :
    event.key ∈ (run step s is).orderManager.seenFor event.orderId := by
  induction is using List.reverseRecOn with
  | nil => cases h
  | append_singleton is i ih =>
    rw [run_append]
    rcases List.mem_append.mp h with hearlier | hlast
    · exact seenFor_step_subset (run step s is) i event.orderId (ih hearlier)
    · rw [← List.mem_singleton.mp hlast]
      exact key_mem_step (run step s is) event

theorem applyOrderEvent_of_key_mem {event : OrderEvent}
    (h : event.key ∈ s.orderManager.seenFor event.orderId) : s.applyOrderEvent event = (s, false) := by
  rw [RunnerState.applyOrderEvent, OrderManager.applyOrderEvent_of_seen s.orderManager h]

theorem applyOrderEvent_of_repeats {past : List Step} {event : OrderEvent}
    (h : Repeats past (.orderEvent event)) :
    (after past).applyOrderEvent event = (after past, false) :=
  applyOrderEvent_of_key_mem (key_mem_run h)

theorem applyTradeEvent_of_repeats {past : List Step} {event : TradeEvent}
    (h : Repeats past (.tradeEvent event)) :
    (after past).applyTradeEvent event = (after past, false) := by
  apply RunnerState.applyTradeEvent_of_seen
  have hledger : (after past).ledger = Ledger.new.applyAll (trades past) := ledger_run _ past
  rw [hledger]
  by_contra hnew
  have hsome := (Ledger.applyTradeEvent_accepted_iff _ event).mpr hnew
  exact (Ledger.isSome_applyTradeEvent_iff (trades past) event).mp hsome h

/-- A repetition is refused and moves nothing. -/
theorem call_of_repeats {past : List Step} {i : Step} (h : Repeats past i) :
    call (after past) i = (after past, some false) := by
  cases i with
  | actionSent action nowNs => exact h.elim
  | orderEvent event => rw [call, applyOrderEvent_of_repeats h]
  | tradeEvent event => rw [call, applyTradeEvent_of_repeats h]

theorem ignored_of_repeats {past : List Step} {i : Step} (h : Repeats past i) :
    Ignored (after past) i := by
  intro r nowNs calls ctx hr
  cases i with
  | actionSent action nowNs => trivial
  | orderEvent event =>
    have hcall := applyOrderEvent_of_repeats h
    rw [← hr] at hcall
    simp only [StrategyRunner.onOrderEvent, hcall, Bool.false_eq_true, if_false]
  | tradeEvent event =>
    have hcall := applyTradeEvent_of_repeats h
    rw [← hr] at hcall
    simp only [StrategyRunner.onTradeEvent, hcall, Bool.false_eq_true, if_false]

end Calls

/-- Deliveries in which everything marked as a repetition is one. -/
def AtLeastOnce (ds : List (Delivery Step)) : Prop :=
  ∀ before i later, ds = before ++ .again i :: later → Repeats (labels before) i

section Deliveries
variable {ds : List (Delivery Step)}

theorem atLeastOnce_nil : AtLeastOnce [] := by
  intro before i later hds
  have hlength := congrArg List.length hds
  simp at hlength

/-- An entry of a longer list is its last one or one of the list before. -/
theorem split_append_singleton {before later : List (Delivery Step)} {d e : Delivery Step}
    (h : ds ++ [d] = before ++ e :: later) :
    (ds = before ∧ d = e) ∨ ∃ earlier, ds = before ++ e :: earlier := by
  rcases List.eq_nil_or_concat later with rfl | ⟨earlier, last, rfl⟩
  · obtain ⟨hbefore, hlast⟩ := List.append_inj' h rfl
    exact .inl ⟨hbefore, (List.cons.inj hlast).1⟩
  · rw [List.concat_eq_append, ← List.cons_append, ← List.append_assoc] at h
    exact .inr ⟨earlier, (List.append_inj' h rfl).1⟩

theorem AtLeastOnce.original (h : AtLeastOnce ds) (i : Step) :
    AtLeastOnce (ds ++ [.original i]) := by
  intro before j later hds
  rcases split_append_singleton hds with ⟨_, hlast⟩ | ⟨earlier, hearlier⟩
  · cases hlast
  · exact h before j earlier hearlier

theorem AtLeastOnce.again (h : AtLeastOnce ds) {i : Step} (hi : Repeats (labels ds) i) :
    AtLeastOnce (ds ++ [.again i]) := by
  intro before j later hds
  rcases split_append_singleton hds with ⟨hbefore, hlast⟩ | ⟨earlier, hearlier⟩
  · cases hlast
    exact hbefore ▸ hi
  · exact h before j earlier hearlier

theorem AtLeastOnce.idle (h : AtLeastOnce ds) :
    Idle step RunnerState.default ds := by
  intro before i later hds
  exact congrArg Prod.fst (call_of_repeats (h before i later hds))

/-- Repetitions return false and are ignored by the runner, every original call
returns what it returns without them, and so does the state after each call. -/
theorem redelivery_is_harmless (h : AtLeastOnce ds) :
    (∀ before i later, ds = before ++ .again i :: later →
      call (after (labels before)) i = (after (labels before), some false) ∧
        Ignored (after (labels before)) i) ∧
    (∀ before i later, ds = before ++ .original i :: later →
      (call (after (labels before)) i).2 = (call (after (originals before)) i).2) ∧
    ∀ before, before <+: ds → after (labels before) = after (originals before) := by
  have hsame : ∀ before, before <+: ds → after (labels before) = after (originals before) :=
    fun before hbefore => run_labels_eq (h.idle.of_prefix hbefore)
  refine ⟨?_, ?_, hsame⟩
  · intro before i later hds
    have hrepeats := h before i later hds
    exact ⟨call_of_repeats hrepeats, ignored_of_repeats hrepeats⟩
  · intro before i later hds
    rw [hsame before ⟨_, hds.symm⟩]

end Deliveries

def activeReport : OrderEvent := ⟨default, 1, .active, 0, 5, 10, 1⟩

def firstTrade : TradeEvent := ⟨default, 1, 1, .buy, 10, 5, 2⟩

/-- The report comes again after the trade, the trade right after the first time. -/
def repeatedDeliveries : List (Delivery Step) :=
  [] ++ [.original (.orderEvent activeReport)] ++ [.original (.tradeEvent firstTrade)] ++
    [.again (.tradeEvent firstTrade)] ++ [.again (.orderEvent activeReport)]

theorem redelivery_is_harmless_repeated :
    after (labels repeatedDeliveries) =
      after [.orderEvent activeReport, .tradeEvent firstTrade] := by
  have hfirst := (atLeastOnce_nil.original (.orderEvent activeReport)).original
    (.tradeEvent firstTrade)
  have hrecent : firstTrade.tradeId ∈
      recentIds [.orderEvent activeReport, .tradeEvent firstTrade] := by decide
  have htrade : Repeats [.orderEvent activeReport, .tradeEvent firstTrade]
      (.tradeEvent firstTrade) := hrecent
  have hreport : Repeats [.orderEvent activeReport, .tradeEvent firstTrade, .tradeEvent firstTrade]
      (.orderEvent activeReport) := List.mem_cons_self
  have hds : AtLeastOnce repeatedDeliveries := (hfirst.again htrade).again hreport
  exact (redelivery_is_harmless hds).2.2 _ (List.prefix_refl _)

end Nnxt.Redelivery
