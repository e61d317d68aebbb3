import Nnxt.OrderManager
import Nnxt.Foundation.Transition

/-!
# Does the tracked order follow the exchange?

The key of a report has no timestamp and is kept for ever, so a report that says
what an earlier one said is taken for a repetition, whatever has happened to the
order in between.
-/

namespace Nnxt.OrderView

set_option autoImplicit false

open HashMap OrderManager Transition

inductive Step where
  | reported (event : OrderEvent)
  | cancelSent (cancel : CancelOrder) (nowNs : UInt64)

def step (m : OrderManager) : Step → OrderManager
  | .reported event => (m.applyOrderEvent event).1
  | .cancelSent cancel nowNs => m.onActionSent (.ofCancelOrder cancel) nowNs

def reports (steps : List Step) : List OrderEvent :=
  steps.filterMap fun
    | .reported event => some event
    | .cancelSent _ _ => none

/-- Reports of one order, none a redelivery and none after a terminal one, with
local cancels in between. -/
structure Feed (orderId : UInt64) (steps : List Step) : Prop where
  reported : ∀ event, .reported event ∈ steps → event.orderId = orderId
  cancelled : ∀ cancel nowNs, .cancelSent cancel nowNs ∈ steps → cancel.orderId = orderId
  increasing : (reports steps).Pairwise fun event later => event.timestamp < later.timestamp
  terminalLast : (reports steps).Pairwise fun event _ => isTerminal event.status = false

/-- The tracked order says what the report says. -/
def Shows (m : OrderManager) (event : OrderEvent) : Prop :=
  ∃ state, m.orders.lookup event.orderId = some state ∧ state.order.status = event.status ∧
    state.order.filledQuantity = event.filledQuantity ∧ state.order.timestamp = event.timestamp

def Follows (m : OrderManager) (steps : List Step) : Prop :=
  ∀ before event later, steps = before ++ .reported event :: later →
    Shows (step (run step m before) (.reported event)) event

/-- No report repeats the status and the quantities of an earlier one, unless the
order stands by chance where the report puts it. -/
def SaysNew (m : OrderManager) (steps : List Step) : Prop :=
  ∀ before event later, steps = before ++ .reported event :: later →
    event.key ∉ (reports before).map OrderEvent.key ∨ Shows (run step m before) event

section Reports
variable {m : OrderManager} {event : OrderEvent} {orderId : UInt64} {steps : List Step}

theorem shows_of_new (hnew : event.key ∉ m.seenFor event.orderId) :
    Shows (step m (.reported event)) event := by
  rw [step, applyOrderEvent_of_new m hnew]
  exact ⟨_, AList.lookup_insert _, rfl, rfl, rfl⟩

/-- A report is taken up when its key is new; otherwise the order stays as it is. -/
theorem shows_step_iff :
    Shows (step m (.reported event)) event ↔ event.key ∉ m.seenFor event.orderId ∨ Shows m event := by
  by_cases hseen : event.key ∈ m.seenFor event.orderId
  · have hsame : step m (.reported event) = m := congrArg Prod.fst (applyOrderEvent_of_seen m hseen)
    rw [hsame]
    exact ⟨Or.inr, fun h => h.resolve_left fun hnew => hnew hseen⟩
  · exact iff_of_true (shows_of_new hseen) (Or.inl hseen)

theorem reports_append (before later : List Step) :
    reports (before ++ later) = reports before ++ reports later := List.filterMap_append

/-- The keys kept for the order are those of its reports so far. -/
theorem mem_seenFor_run (h : ∀ event, .reported event ∈ steps → event.orderId = orderId)
    (key : OrderEventKey) :
    key ∈ (run step m steps).seenFor orderId ↔
      key ∈ m.seenFor orderId ∨ key ∈ (reports steps).map OrderEvent.key := by
  induction steps using List.reverseRecOn with
  | nil => exact ⟨Or.inl, fun h => h.resolve_right List.not_mem_nil⟩
  | append_singleton steps last ih =>
    have hbefore := ih fun event hmem => h event (List.mem_append_left _ hmem)
    have hlast : last ∈ steps ++ [last] := List.mem_append_right _ (List.mem_singleton.mpr rfl)
    rw [run_append, reports_append, List.map_append, List.mem_append, ← or_assoc, ← hbefore]
    cases last with
    | cancelSent cancel nowNs =>
      have hkeys : (step (run step m steps) (.cancelSent cancel nowNs)).seenFor orderId =
          (run step m steps).seenFor orderId := seenFor_onActionSent _ _ _ _
      rw [run_cons, run_nil, hkeys]
      exact (or_iff_left List.not_mem_nil).symm
    | reported event =>
      have hkeys := seenFor_applyOrderEvent (run step m steps) event orderId
      rw [if_pos (h event hlast).symm] at hkeys
      have hstep : (run step (run step m steps) [.reported event]).seenFor orderId =
          insert event.key ((run step m steps).seenFor orderId) := hkeys
      have hreports : (reports [.reported event]).map OrderEvent.key = [event.key] := rfl
      rw [hstep, hreports, Finset.mem_insert, List.mem_singleton, or_comm]

end Reports

/-- The tracked order follows the reports exactly when none of them repeats an
earlier one in status and quantities. -/
theorem follows_iff_says_new {m : OrderManager} {orderId : UInt64} {steps : List Step}
    (hfresh : m.seenFor orderId = ∅) (hfeed : Feed orderId steps) :
    Follows m steps ↔ SaysNew m steps := by
  refine forall₄_congr fun before event later hsteps => ?_
  have hbefore : ∀ event, .reported event ∈ before → event.orderId = orderId := by
    intro event hmem
    exact hfeed.reported event (hsteps ▸ List.mem_append_left _ hmem)
  have hevent : event.orderId = orderId := by
    apply hfeed.reported event
    rw [hsteps]
    exact List.mem_append_right _ List.mem_cons_self
  rw [shows_step_iff, hevent, mem_seenFor_run hbefore, hfresh]
  simp only [Finset.notMem_empty, false_or]

/-- Reports that all differ in status or quantities are all taken up. -/
theorem says_new_of_nodup {m : OrderManager} {steps : List Step}
    (h : ((reports steps).map OrderEvent.key).Nodup) : SaysNew m steps := by
  intro before event later hsteps
  left
  have hkeys : (reports steps).map OrderEvent.key =
      (reports before).map OrderEvent.key ++ event.key :: (reports later).map OrderEvent.key := by
    rw [hsteps, reports_append, List.map_append]
    rfl
  rw [hkeys, List.nodup_append] at h
  intro hmem
  exact h.2.2 _ hmem _ List.mem_cons_self rfl

def reportedActive (timestamp : UInt64) : OrderEvent := ⟨default, 1, .active, 0, 5, 10, timestamp⟩

def reportedPart : OrderEvent := ⟨default, 1, .partialFilled, 2, 3, 10, 3⟩

/-- The exchange refuses the cancel and reports the order as it was. -/
def cancelRefused : List Step :=
  [.reported (reportedActive 1), .cancelSent ⟨default, 1, 2⟩ 2, .reported (reportedActive 3)]

def filledMeanwhile : List Step :=
  [.reported (reportedActive 1), .cancelSent ⟨default, 1, 2⟩ 2, .reported reportedPart]

theorem feed_cancelRefused : Feed 1 cancelRefused where
  reported := by simp [cancelRefused, reportedActive]
  cancelled := by simp [cancelRefused]
  increasing := by decide
  terminalLast := by decide

theorem feed_filledMeanwhile : Feed 1 filledMeanwhile where
  reported := by simp [filledMeanwhile, reportedActive, reportedPart]
  cancelled := by simp [filledMeanwhile]
  increasing := by decide
  terminalLast := by decide

theorem follows_filledMeanwhile : Follows OrderManager.default filledMeanwhile := by
  apply (follows_iff_says_new rfl feed_filledMeanwhile).mpr
  apply says_new_of_nodup
  decide

/-- The order whose cancel was refused stays in `PendingCancel`. -/
theorem cancel_refused_not_followed : ¬ ∀ (m : OrderManager) (orderId : UInt64) (steps : List Step),
    m.seenFor orderId = ∅ → Feed orderId steps → Follows m steps := by
  intro h
  have hshown := h OrderManager.default 1 cancelRefused rfl feed_cancelRefused
    [.reported (reportedActive 1), .cancelSent ⟨default, 1, 2⟩ 2] (reportedActive 3) [] rfl
  obtain ⟨state, hlookup, hstatus, -⟩ := hshown
  have hstored : ((run step OrderManager.default cancelRefused).orders.lookup 1).map
      (fun state => state.order.status) = some .pendingCancel := rfl
  have hstate : (run step OrderManager.default cancelRefused).orders.lookup 1 = some state := hlookup
  rw [hstate, Option.map_some, hstatus] at hstored
  cases hstored

end Nnxt.OrderView
