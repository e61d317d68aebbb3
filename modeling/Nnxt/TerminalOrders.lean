import Nnxt.TradeSimulator
import Nnxt.RunnerState
import Nnxt.Foundation.Transition

/-!
# Terminal order states

Whether a finished order stays finished, over every run of the three handlers
that write the status of an order.
-/

namespace Nnxt.TerminalOrders

set_option autoImplicit false

open HashMap OrderManager
open RunnerState (record Finished)

inductive Step where
  | actionSent (action : Action) (nowNs : UInt64)
  | orderEvent (event : OrderEvent)
  | tradeEvent (event : TradeEvent)

def step (s : RunnerState) : Step → RunnerState
  | .actionSent action nowNs => s.onActionSent action nowNs
  | .orderEvent event => (s.applyOrderEvent event).1
  | .tradeEvent event => (s.applyTradeEvent event).1

def NoExposure (s : RunnerState) (orderId : UInt64) : Prop :=
  ∃ st, record s orderId = some st ∧ ∀ i acc, addExposure i acc st = acc

/-- Once finished, an order is finished and without exposure at every later point of the run. -/
def Absorbing (s : RunnerState) (is : List Step) : Prop :=
  ∀ js ks, js ++ ks <+: is → ∀ orderId, Finished (Transition.run step s js) orderId →
    Finished (Transition.run step s (js ++ ks)) orderId ∧
      NoExposure (Transition.run step s (js ++ ks)) orderId

/-- No new order takes the id of a finished one, and no order event with a
non-terminal status that the order has not reported before reaches it. -/
def RespectsFinished (s : RunnerState) : Step → Prop
  | .actionSent action _ =>
    action.kind = .newOrder → ¬ Finished s action.newOrder.orderId
  | .orderEvent event =>
    Finished s event.orderId →
      isTerminal event.status ∨ event.key ∈ s.orderManager.seenFor event.orderId
  | .tradeEvent _ => True

theorem addExposure_of_terminal {st : OrderState} (h : isTerminal st.order.status)
    (i : InstrumentId) (acc : UInt64 × UInt64) : addExposure i acc st = acc := by
  unfold addExposure
  by_cases hi : st.order.instrumentId ≠ i
  · rw [if_pos hi]
  · rw [if_neg hi, if_pos h]

theorem noExposure_of_finished {s : RunnerState} {orderId : UInt64} (h : Finished s orderId) :
    NoExposure s orderId := by
  obtain ⟨st, hst, hterm⟩ := h
  exact ⟨st, hst, addExposure_of_terminal hterm⟩

theorem cancelSent_of_terminal {st : OrderState} (h : isTerminal st.order.status) (nowNs : UInt64) :
    st.cancelSent nowNs = st := if_pos h

/-- A trade can only move a terminal status to `Filled`. -/
theorem traded_terminal {st : OrderState} (h : isTerminal st.order.status) (event : TradeEvent) :
    isTerminal (st.traded event).order.status := by
  simp only [OrderState.traded]
  split
  · rfl
  · split
    · rename_i hp
      rw [hp] at h
      exact absurd h (by decide)
    · exact h

theorem finished_actionSent {s : RunnerState} {action : Action} {nowNs orderId : UInt64}
    (hg : RespectsFinished s (.actionSent action nowNs)) (h : Finished s orderId) :
    Finished (s.onActionSent action nowNs) orderId := by
  obtain ⟨st, hst, hterm⟩ := h
  cases hk : action.kind with
  | newOrder =>
    have hne : orderId ≠ action.newOrder.orderId := by
      intro heq
      exact hg hk (heq ▸ ⟨st, hst, hterm⟩)
    refine ⟨st, ?_, hterm⟩
    simp only [record, RunnerState.onActionSent, onActionSent, hk]
    rw [AList.lookup_insert_ne hne]
    exact hst
  | cancelOrder =>
    refine ⟨st, ?_, hterm⟩
    simp only [record, RunnerState.onActionSent, onActionSent, hk]
    by_cases heq : orderId = action.cancelOrder.orderId
    · subst heq
      rw [lookup_modify_self]
      simp only [record] at hst
      rw [hst, Option.map_some, cancelSent_of_terminal hterm]
    · rw [lookup_modify_ne heq]
      exact hst

theorem finished_orderEvent {s : RunnerState} {event : OrderEvent} {orderId : UInt64}
    (hg : RespectsFinished s (.orderEvent event)) (h : Finished s orderId) :
    Finished (s.applyOrderEvent event).1 orderId := by
  by_cases heq : orderId = event.orderId
  · subst heq
    rcases hg h with hterm | hseen
    · by_cases hseen : event.key ∈ s.orderManager.seenFor event.orderId
      · simpa only [Finished, record, RunnerState.applyOrderEvent,
          applyOrderEvent_of_seen _ hseen] using h
      · obtain ⟨st, hst, _⟩ := h
        exact ⟨st.reported event, lookup_applyOrderEvent_of_new _ hseen hst, hterm⟩
    · simpa only [Finished, record, RunnerState.applyOrderEvent,
        applyOrderEvent_of_seen _ hseen] using h
  · simpa only [Finished, record, RunnerState.applyOrderEvent,
      lookup_applyOrderEvent_ne _ _ heq] using h

theorem finished_tradeEvent {s : RunnerState} (event : TradeEvent) {orderId : UInt64}
    (h : Finished s orderId) : Finished (s.applyTradeEvent event).1 orderId := by
  by_cases hseen : event.tradeId ∈ s.ledger.fillLedger.seen
  · rw [RunnerState.applyTradeEvent_of_seen s hseen]
    exact h
  · rw [RunnerState.applyTradeEvent_of_new s hseen]
    obtain ⟨st, hst, hterm⟩ := h
    by_cases heq : orderId = event.orderId
    · subst heq
      refine ⟨st.traded event, ?_, traded_terminal hterm event⟩
      simp only [record] at hst ⊢
      rw [lookup_applyTradeEvent_self, hst, Option.map_some]
    · refine ⟨st, ?_, hterm⟩
      simp only [record] at hst ⊢
      rw [lookup_applyTradeEvent_ne _ _ heq, hst]

theorem finished_step {s : RunnerState} {i : Step} {orderId : UInt64}
    (hg : RespectsFinished s i) (h : Finished s orderId) : Finished (step s i) orderId := by
  cases i with
  | actionSent action nowNs => exact finished_actionSent hg h
  | orderEvent event => exact finished_orderEvent hg h
  | tradeEvent event => exact finished_tradeEvent event h

/-- A step outside the guard takes a finished order out of its terminal state at once. -/
theorem not_finished_step {s : RunnerState} {i : Step} (hg : ¬ RespectsFinished s i) :
    ∃ orderId, Finished s orderId ∧ ¬ Finished (step s i) orderId := by
  cases i with
  | actionSent action nowNs =>
    simp only [RespectsFinished, Classical.not_imp, not_not] at hg
    obtain ⟨hk, hfin⟩ := hg
    refine ⟨_, hfin, ?_⟩
    rintro ⟨st, hst, hterm⟩
    simp only [step, record, RunnerState.onActionSent, onActionSent, hk, AList.lookup_insert,
      Option.some.injEq] at hst
    subst hst
    exact absurd hterm (by simp [OrderState.sent, isTerminal])
  | orderEvent event =>
    simp only [RespectsFinished, Classical.not_imp, not_or] at hg
    obtain ⟨hfin, hterm, hnew⟩ := hg
    refine ⟨_, hfin, ?_⟩
    obtain ⟨st, hst, _⟩ := hfin
    rintro ⟨st', hst', hterm'⟩
    have hlook := lookup_applyOrderEvent_of_new _ hnew hst
    simp only [step, record, RunnerState.applyOrderEvent] at hst'
    rw [hlook, Option.some.injEq] at hst'
    subst hst'
    exact hterm hterm'
  | tradeEvent event => exact absurd trivial hg

theorem finished_run {s : RunnerState} {is : List Step} {orderId : UInt64}
    (hg : Transition.Guarded step RespectsFinished s is) (h : Finished s orderId) :
    Finished (Transition.run step s is) orderId := by
  induction is generalizing s with
  | nil => exact h
  | cons i is ih =>
    obtain ⟨hi, hg⟩ := Transition.guarded_cons.mp hg
    exact ih hg (finished_step hi h)

/-- Terminal states are absorbing along exactly the runs whose every step respects them. -/
theorem absorbing_iff (s : RunnerState) (is : List Step) :
    Absorbing s is ↔ Transition.Guarded step RespectsFinished s is := by
  constructor
  · intro h js i hpre
    by_contra hg
    obtain ⟨orderId, hfin, hnot⟩ := not_finished_step hg
    have hafter := (h js [i] hpre orderId hfin).1
    rw [Transition.run_append] at hafter
    exact hnot hafter
  · intro hg js ks hpre orderId hfin
    have hks := (hg.of_prefix hpre).of_append
    have hafter := finished_run hks hfin
    rw [← Transition.run_append] at hafter
    exact ⟨hafter, noExposure_of_finished hafter⟩

/-- No new order is sent under an id that is already tracked. -/
def NewIdUntracked (s : RunnerState) : Step → Prop
  | .actionSent action _ => action.kind = .newOrder → record s action.newOrder.orderId = none
  | _ => True

/-- The order and its answer, the trade queue read first. -/
def lateActive : List Step :=
  [.actionSent buyFive 1] ++ (tradeEventsOf buyFiveAnswer).map .tradeEvent ++
    ((orderEventsOf buyFiveAnswer).take 1).map .orderEvent

/-- The trade fills the order; the `Active` event that follows it reopens the order. -/
theorem late_active_reopens :
    Transition.Guarded step NewIdUntracked RunnerState.default lateActive ∧
      ¬ Absorbing RunnerState.default lateActive := by
  constructor
  · refine Transition.guarded_cons.mpr ⟨fun _ => rfl, ?_⟩
    refine Transition.guarded_cons.mpr ⟨trivial, ?_⟩
    exact Transition.guarded_cons.mpr ⟨trivial, Transition.guarded_nil⟩
  · intro h
    have hfilled : Finished (Transition.run step RunnerState.default (lateActive.take 2)) 1 := by
      decide
    have hreopened : ¬ Finished (Transition.run step RunnerState.default lateActive) 1 := by
      decide
    exact hreopened (h (lateActive.take 2) (lateActive.drop 2)
      (List.take_append_drop 2 lateActive ▸ List.prefix_refl _) 1 hfilled).1

end Nnxt.TerminalOrders
