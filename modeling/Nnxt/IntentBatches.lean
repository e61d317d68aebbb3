import Nnxt.StrategyRunner

/-!
# Intents submitted together

`execute` borrows the state, so every intent of a batch is measured against the
state before the batch. Submitted one after another, an intent sees what the
intents before it have ordered.
-/

namespace Nnxt

set_option autoImplicit false

open FixedWidth

def RunnerState.onActionsSent (s : RunnerState) (actions : List Action) (nowNs : UInt64) :
    RunnerState := actions.foldl (fun state action => state.onActionSent action nowNs) s

/-- What a submission reads and leaves: the counter of the engine and the state. -/
structure Desk where
  engine : ExecutionEngine
  state : RunnerState

def TargetPositionIntent.gap (intent : TargetPositionIntent) (state : RunnerState) : Int64 :=
  saturatingSubI64 intent.targetQuantity (state.effectivePosition intent.instrumentId)

namespace Desk

def submit (d : Desk) (nowNs : UInt64) (intents : List Intent) : Desk × List Action :=
  let (engine, actions) := d.engine.execute intents d.state nowNs
  (⟨engine, d.state.onActionsSent actions nowNs⟩, actions)

def submitEach (d : Desk) (nowNs : UInt64) : List Intent → Desk × List Action
  | [] => (d, [])
  | intent :: intents =>
    let (d', actions) := d.submit nowNs [intent]
    let (d'', rest) := d'.submitEach nowNs intents
    (d'', actions ++ rest)

/-- The same actions and the same state, submitted together or one after another. -/
def Agrees (d : Desk) (nowNs : UInt64) (intents : List Intent) : Prop :=
  (d.submit nowNs intents).2 = (d.submitEach nowNs intents).2 ∧
    (d.submit nowNs intents).1.state = (d.submitEach nowNs intents).1.state

/-- No target position is measured differently after the intents before it. -/
def GapsKept (d : Desk) (nowNs : UInt64) (intents : List Intent) : Prop :=
  ∀ before intent after, intents = before ++ .targetPosition intent :: after →
    intent.gap (d.submitEach nowNs before).1.state = intent.gap d.state

end Desk

section Engine
variable (e : ExecutionEngine) {state state' : RunnerState} {nowNs : UInt64}

/-- The gap is all that an intent reads of the state. -/
theorem ExecutionEngine.intentActions_congr {intent : Intent}
    (h : ∀ target, intent = .targetPosition target → target.gap state = target.gap state')
    (nowNs : UInt64) :
    e.intentActions intent state nowNs = e.intentActions intent state' nowNs := by
  cases intent with
  | targetPosition target =>
    have hgap : saturatingSubI64 target.targetQuantity (state.effectivePosition target.instrumentId) =
        saturatingSubI64 target.targetQuantity (state'.effectivePosition target.instrumentId) :=
      h target rfl
    simp only [intentActions, targetPositionActions, hgap]
  | targetOrders => rfl
  | cancelOrder => rfl

/-- The gap can be read off the actions: it is what they would move. -/
theorem ExecutionEngine.sum_targetPositionActions (intent : TargetPositionIntent) :
    ((e.targetPositionActions intent state nowNs).2.map Action.signedQuantity).sum =
      (intent.gap state).toInt := by
  by_cases hmet : state.effectivePosition intent.instrumentId = intent.targetQuantity
  · have hgap : intent.gap state = 0 := saturatingSubI64_eq_zero_iff.mpr hmet
    rw [e.targetPositionActions_of_met nowNs hmet, hgap]
    rfl
  · rw [e.targetPositionActions_of_missed nowNs hmet, List.map_singleton, List.sum_singleton,
      (e.covers_targetOrder _ _ _).signedQuantity]
    rfl

theorem ExecutionEngine.gap_of_actions {e' : ExecutionEngine} {intent : TargetPositionIntent}
    (h : (e.targetPositionActions intent state nowNs).2 =
      (e'.targetPositionActions intent state' nowNs).2) :
    intent.gap state = intent.gap state' := by
  apply Int64.toInt_inj.mp
  rw [← e.sum_targetPositionActions, h, e'.sum_targetPositionActions]

theorem ExecutionEngine.execute_append (intents intents' : List Intent) (state : RunnerState) :
    e.execute (intents ++ intents') state nowNs =
      (((e.execute intents state nowNs).1.execute intents' state nowNs).1,
        (e.execute intents state nowNs).2 ++
          ((e.execute intents state nowNs).1.execute intents' state nowNs).2) := by
  induction intents generalizing e with
  | nil => rfl
  | cons intent intents ih =>
    rw [List.cons_append, execute_cons, execute_cons, ih]
    simp only [List.append_assoc]

theorem ExecutionEngine.execute_singleton (intent : Intent) (state : RunnerState) :
    e.execute [intent] state nowNs = e.intentActions intent state nowNs := by
  rw [execute_cons, execute_nil, List.append_nil]

end Engine

namespace Desk
variable {d : Desk} {nowNs : UInt64} {intents : List Intent}

/-- The desk of a runner: what every handler of it does with the intents. -/
theorem submit_runner (r : StrategyRunner) (ctx : ActorContext) :
    (r.submit nowNs intents ctx).1.engine = ((⟨r.engine, r.state⟩ : Desk).submit nowNs intents).1.engine ∧
    (r.submit nowNs intents ctx).1.state = ((⟨r.engine, r.state⟩ : Desk).submit nowNs intents).1.state ∧
    (r.submit nowNs intents ctx).1.sent =
      r.sent ++ ((⟨r.engine, r.state⟩ : Desk).submit nowNs intents).2 := ⟨rfl, rfl, rfl⟩

theorem onActionsSent_append (s : RunnerState) (actions actions' : List Action) :
    s.onActionsSent (actions ++ actions') nowNs =
      (s.onActionsSent actions nowNs).onActionsSent actions' nowNs := List.foldl_append

theorem submitEach_cons (intent : Intent) :
    d.submitEach nowNs (intent :: intents) =
      (((d.submit nowNs [intent]).1.submitEach nowNs intents).1,
        (d.submit nowNs [intent]).2 ++ ((d.submit nowNs [intent]).1.submitEach nowNs intents).2) := rfl

theorem submitEach_append (intents' : List Intent) :
    d.submitEach nowNs (intents ++ intents') =
      (((d.submitEach nowNs intents).1.submitEach nowNs intents').1,
        (d.submitEach nowNs intents).2 ++ ((d.submitEach nowNs intents).1.submitEach nowNs intents').2) := by
  induction intents generalizing d with
  | nil => rfl
  | cons intent intents ih =>
    rw [List.cons_append, submitEach_cons, submitEach_cons, ih]
    simp only [List.append_assoc]

/-- The state follows from the actions, batch or not. -/
theorem submitEach_state :
    (d.submitEach nowNs intents).1.state = d.state.onActionsSent (d.submitEach nowNs intents).2 nowNs := by
  induction intents generalizing d with
  | nil => rfl
  | cons intent intents ih =>
    rw [submitEach_cons, onActionsSent_append]
    exact ih

theorem agrees_iff :
    d.Agrees nowNs intents ↔ (d.submit nowNs intents).2 = (d.submitEach nowNs intents).2 := by
  constructor
  · intro h
    exact h.1
  · intro h
    refine ⟨h, ?_⟩
    rw [submitEach_state, ← h]
    rfl

/-- One more intent, in a batch. -/
theorem submit_concat (intent : Intent) :
    (d.submit nowNs (intents ++ [intent])).1.engine =
        ((d.submit nowNs intents).1.engine.intentActions intent d.state nowNs).1 ∧
      (d.submit nowNs (intents ++ [intent])).2 = (d.submit nowNs intents).2 ++
        ((d.submit nowNs intents).1.engine.intentActions intent d.state nowNs).2 := by
  simp only [submit, ExecutionEngine.execute_append, ExecutionEngine.execute_singleton, and_self]

/-- One more intent, on its own. -/
theorem submitEach_concat (intent : Intent) :
    (d.submitEach nowNs (intents ++ [intent])).1.engine =
        ((d.submitEach nowNs intents).1.engine.intentActions intent
          (d.submitEach nowNs intents).1.state nowNs).1 ∧
      (d.submitEach nowNs (intents ++ [intent])).2 = (d.submitEach nowNs intents).2 ++
        ((d.submitEach nowNs intents).1.engine.intentActions intent
          (d.submitEach nowNs intents).1.state nowNs).2 := by
  simp only [submitEach_append, submitEach, submit, ExecutionEngine.execute_singleton,
    List.append_nil, and_self]

theorem GapsKept.of_prefix {intents' : List Intent} (h : d.GapsKept nowNs (intents ++ intents')) :
    d.GapsKept nowNs intents := by
  intro before intent after hintents
  apply h before intent (after ++ intents')
  rw [hintents, List.append_assoc, List.cons_append]

/-- With the gaps kept, the engine hands out the same ids as well. -/
theorem GapsKept.submit_eq (h : d.GapsKept nowNs intents) :
    (d.submit nowNs intents).1.engine = (d.submitEach nowNs intents).1.engine ∧
      (d.submit nowNs intents).2 = (d.submitEach nowNs intents).2 := by
  induction intents using List.reverseRecOn with
  | nil => exact ⟨rfl, rfl⟩
  | append_singleton intents intent ih =>
    obtain ⟨hengine, hactions⟩ := ih h.of_prefix
    have hintent : ∀ target, intent = .targetPosition target →
        target.gap d.state = target.gap (d.submitEach nowNs intents).1.state := by
      intro target htarget
      exact (h intents target [] (by rw [htarget])).symm
    have hsame := (d.submitEach nowNs intents).1.engine.intentActions_congr hintent nowNs
    rw [(submit_concat intent).1, (submit_concat intent).2, (submitEach_concat intent).1,
      (submitEach_concat intent).2, hengine, hactions, hsame]
    exact ⟨rfl, rfl⟩

/-- Batches and single submissions agree, at every length, exactly as far as the
intents before a target position leave its gap as it was. -/
theorem agrees_iff_gaps_kept (d : Desk) (nowNs : UInt64) (intents : List Intent) :
    (∀ before, before <+: intents → d.Agrees nowNs before) ↔ d.GapsKept nowNs intents := by
  constructor
  · intro h before intent after hintents
    have hbefore := h before ⟨_, hintents.symm⟩
    have hnext := h (before ++ [.targetPosition intent])
      ⟨after, by rw [hintents, List.append_assoc, List.singleton_append]⟩
    rw [agrees_iff] at hbefore hnext
    rw [(submit_concat _).2, (submitEach_concat _).2, hbefore] at hnext
    exact (ExecutionEngine.gap_of_actions _ (List.append_cancel_left hnext)).symm
  · intro h before hbefore
    obtain ⟨after, rfl⟩ := hbefore
    exact agrees_iff.mpr h.of_prefix.submit_eq.2

/-- The same target twice: together they order twice, one after the other once. -/
theorem batch_orders_twice : ¬ ∀ (d : Desk) (nowNs : UInt64) (intents : List Intent),
    d.Agrees nowNs intents := by
  intro h
  have hactions := (h ⟨ExecutionEngine.new, RunnerState.default⟩ 1
    [.targetPosition ⟨default, 5, .limit, 7⟩, .targetPosition ⟨default, 5, .limit, 7⟩]).1
  exact absurd (congrArg List.length hactions) (by decide)

end Desk

end Nnxt
