import Nnxt.PhaseSteps

/-!
# No over-trading

An intent in a settled state finds its target met and orders nothing; one in an
unsettled state orders the difference on top of what was ordered.
-/

namespace Nnxt.OverTrading

set_option autoImplicit false

open HashMap FixedWidth OrderManager

section Callbacks
variable {instrumentId : InstrumentId} {target : Int64} {s t : System}

theorem Unsent.effectivePosition (h : Unsent s) :
    s.runner.state.effectivePosition instrumentId = 0 := by
  have hsame : s.runner.state.effectivePosition instrumentId =
      RunnerState.default.effectivePosition instrumentId := by
    simp only [RunnerState.effectivePosition, RunnerState.position, RunnerState.pendingExposure,
      h.orderManager, h.ledger]
    rfl
  rw [hsame, RunnerState.effectivePosition_default]

theorem Unsent.settled (h : Unsent s) : Settled s := by
  rw [Settled, h.orderQueue, h.tradeQueue]
  exact ⟨List.forall_mem_nil _, List.forall_mem_nil _⟩

theorem Unsent.callback (h : Unsent t) (nowNs : UInt64) (calls : TargetCalls instrumentId target) :
    Inv instrumentId target (t.withHandler (t.runner.callback nowNs calls.calls t.ctx)) := by
  by_cases hsilent : calls.submission.isSome → t.runner.state.effectivePosition instrumentId = target
  · have hnil := callbackActions_of_silent nowNs hsilent
    refine Or.inl ⟨?_, ?_, ?_, h.handled, h.gateway, h.orderQueue, h.tradeQueue⟩
    · simp only [System.withHandler, StrategyRunner.state_callback, hnil, List.foldl_nil]
      exact h.orderManager
    · simp only [System.withHandler, StrategyRunner.state_callback, hnil, List.foldl_nil]
      exact h.ledger
    · simp only [System.withHandler, StrategyRunner.sent_callback, hnil, List.append_nil]
      exact h.sent
  · obtain ⟨hsub, hmissed⟩ := Classical.not_imp.mp hsilent
    obtain ⟨order, hactions, hcovers⟩ := callbackActions_of_missed nowNs hsub hmissed
    rw [h.effectivePosition] at hmissed hcovers
    have hwhole : saturatingSubI64 target 0 = target := by
      rw [saturatingSubI64, Int64.toInt_zero, Int.sub_zero, Int64.ofIntClamp_toInt]
    rw [hwhole] at hcovers
    refine Or.inr ⟨order, sentAnswer order 0 0 0 0, .waiting, Ne.symm hmissed, hcovers, ?_,
      h.handled, h.gateway, h.orderQueue, h.tradeQueue, ⟨.sent order nowNs, ?_, tracks_sent _ _⟩,
      ?_, ?_, fun _ htrade => absurd htrade List.not_mem_nil, ?_⟩
    · simp only [System.withHandler, StrategyRunner.sent_callback, hactions, h.sent,
        List.nil_append]
    · simp only [System.withHandler, StrategyRunner.state_callback, hactions, List.foldl_cons,
        List.foldl_nil, RunnerState.onActionSent, h.orderManager]
      rfl
    · simp only [System.withHandler, StrategyRunner.state_callback, hactions, List.foldl_cons,
        List.foldl_nil, RunnerState.onActionSent, seenFor_onActionSent, h.orderManager]
      rfl
    · simp only [System.withHandler, StrategyRunner.state_callback, hactions, List.foldl_cons,
        List.foldl_nil, RunnerState.onActionSent, h.ledger]
      rfl
    · intro _
      simp only [System.withHandler, StrategyRunner.state_callback, hactions, List.foldl_cons,
        List.foldl_nil, RunnerState.onActionSent, h.ledger]
      rfl

theorem InPhase.callback {order : NewOrder} {answer : Answer order} {phase : Phase}
    (h : InPhase instrumentId target answer phase t) (nowNs : UInt64)
    {calls : TargetCalls instrumentId target} (hg : calls.submission.isSome → Settled t) :
    InPhase instrumentId target answer phase
      (t.withHandler (t.runner.callback nowNs calls.calls t.ctx)) := by
  have hnil : t.runner.callbackActions nowNs calls.calls = [] :=
    callbackActions_of_silent nowNs fun hsub => h.met_iff.mpr (h.settled_iff.mp (hg hsub))
  have hstate : (t.runner.callback nowNs calls.calls t.ctx).1.state = t.runner.state := by
    rw [StrategyRunner.state_callback, hnil, List.foldl_nil]
  apply h.withHandler
  · rw [StrategyRunner.sent_callback, hnil, List.append_nil]
  · rw [hstate]
  · rw [hstate]

/-- An intent in an unsettled state orders the difference on top. -/
theorem not_noOverTrading_callback (h : Inv instrumentId target t) (nowNs : UInt64)
    {calls : TargetCalls instrumentId target} (hsub : calls.submission.isSome)
    (hns : ¬ Settled t) :
    ¬ NoOverTrading target (t.withHandler (t.runner.callback nowNs calls.calls t.ctx)) := by
  rcases h with h | ⟨order, answer, phase, h⟩
  · exact absurd h.settled hns
  · have hmissed : t.runner.state.effectivePosition instrumentId ≠ target :=
      fun hmet => hns (h.settled_iff.mpr (h.met_iff.mp hmet))
    obtain ⟨second, hactions, hcovers⟩ := callbackActions_of_missed nowNs hsub hmissed
    have hsent : (t.withHandler (t.runner.callback nowNs calls.calls t.ctx)).runner.sent =
        [.ofNewOrder order, .ofNewOrder second] := by
      simp only [System.withHandler, StrategyRunner.sent_callback, hactions, h.sent,
        List.cons_append, List.nil_append]
    rintro (hnil | hsum)
    · rw [hsent] at hnil
      cases hnil
    · simp only [ordered, hsent, List.map_cons, List.map_nil, List.sum_cons, List.sum_nil,
        h.covers.signedQuantity, hcovers.signedQuantity] at hsum
      have hzero : saturatingSubI64 target (t.runner.state.effectivePosition instrumentId) = 0 := by
        apply Int64.toInt_inj.mp
        rw [Int64.toInt_zero]
        omega
      exact hmissed (saturatingSubI64_eq_zero_iff.mp hzero)

theorem Inv.noOverTrading (h : Inv instrumentId target s) : NoOverTrading target s := by
  rcases h with h | ⟨order, answer, phase, h⟩
  · exact Or.inl h.sent
  · refine Or.inr ?_
    simp only [ordered, h.sent, List.map_cons, List.map_nil, List.sum_cons, List.sum_nil,
      h.covers.signedQuantity, Int.add_zero]

theorem Inv.step (h : Inv instrumentId target s) {i : Step instrumentId target}
    (hg : SubmitsSettled s i) : Inv instrumentId target (s.step i) := by
  cases i with
  | answer now₁ now₂ now₃ => exact h.answered now₁ now₂ now₃
  | callback trigger nowNs calls =>
    simp only [System.step]
    cases ht : s.received trigger with
    | none =>
      rw [h.handle_of_not_received ht]
      exact h
    | some t =>
      rw [handle_received ht]
      rcases h.received ht with hunsent | ⟨order, answer, phase, hphase⟩
      · exact hunsent.callback nowNs calls
      · exact Or.inr ⟨order, answer, phase, hphase.callback nowNs fun hsub => hg hsub t ht⟩

theorem Inv.not_noOverTrading_step (h : Inv instrumentId target s) {i : Step instrumentId target}
    (hg : ¬ SubmitsSettled s i) : ¬ NoOverTrading target (s.step i) := by
  cases i with
  | answer now₁ now₂ now₃ => exact absurd trivial hg
  | callback trigger nowNs calls =>
    simp only [SubmitsSettled, Classical.not_imp, not_forall] at hg
    obtain ⟨hsub, t, ht, hns⟩ := hg
    simp only [System.step]
    rw [handle_received ht]
    exact not_noOverTrading_callback (h.received ht) nowNs hsub hns

end Callbacks

/-- The runner never orders the same quantity twice, along exactly the runs in
which every intent is submitted in a settled state. -/
theorem no_over_trading_iff {instrumentId : InstrumentId} {target : Int64} {s : System}
    (hs : Start s) (is : List (Step instrumentId target)) :
    Transition.Always System.step (NoOverTrading target) s is ↔
      Transition.Guarded System.step SubmitsSettled s is := by
  have hstart : Inv instrumentId target s := by
    refine Or.inl ⟨?_, ?_, hs.sent, hs.handled, hs.gateway, hs.orderQueue, hs.tradeQueue⟩
    · rw [hs.state]
      rfl
    · rw [hs.state]
      rfl
  exact Transition.always_iff_guarded (fun _ h => h.noOverTrading) (fun _ _ h hg => h.step hg)
    (fun _ _ h hg => h.not_noOverTrading_step hg) hstart is

def silent : TargetCalls default 5 := ⟨[], none, fun _ => rfl⟩

def submitting : TargetCalls default 5 :=
  ⟨[.submitIntent (.targetPosition ⟨default, 5, .limit, 10⟩)], some (.limit, 10), fun _ => rfl⟩

def startSystem : System :=
  ⟨.new ⟨none, 16, false, "strategy-runner"⟩, ActorContext.new, 0, TradeSimulator.new, [], []⟩

theorem start_startSystem : Start startSystem := ⟨rfl, rfl, rfl, rfl, rfl, rfl⟩

/-- The trade arrives before the second intent and the order events after it. -/
def tradeFirst : List (Step default 5) :=
  [.callback .timer 1 submitting, .answer 2 3 4, .callback .tradeEvent 5 submitting,
   .callback .orderEvent 6 silent, .callback .orderEvent 7 submitting]

theorem no_over_trading_trade_first :
    Transition.Always System.step (NoOverTrading 5) startSystem tradeFirst := by
  refine (no_over_trading_iff start_startSystem tradeFirst).mpr ?_
  simp only [tradeFirst, Transition.guarded_cons, Transition.guarded_nil, and_true]
  refine ⟨?_, trivial, ?_, nofun, ?_⟩
  · intro _
    decide
  · intro _
    decide
  · intro _
    decide

/-- Both order events arrive first, and the `Filled` event makes the strategy ask again. -/
def filledFirst : List (Step default 5) :=
  [.callback .timer 1 submitting, .answer 2 3 4, .callback .orderEvent 5 silent,
   .callback .orderEvent 6 submitting]

theorem filled_first_orders_twice :
    ¬ ∀ (instrumentId : InstrumentId) (target : Int64) (s : System)
      (is : List (Step instrumentId target)), Start s →
      Transition.Always System.step (NoOverTrading target) s is := by
  intro h
  have hend := (h default 5 startSystem filledFirst start_startSystem).last
  revert hend
  decide

end Nnxt.OverTrading
