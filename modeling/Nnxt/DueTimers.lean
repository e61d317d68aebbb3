import Nnxt.EventLoop
import Nnxt.Foundation.Transition

/-!
# Due timers at the end of a turn

A handled event ends with a tick, after which nothing is due that was due when
the turn began. A turn in which `poll` returns nothing has no tick.
-/

namespace Nnxt

set_option autoImplicit false

open Transition FixedWidth

/-- No live timer fires at `nowNs` or before. -/
def TimerManager.Later (nowNs : UInt64) (m : TimerManager) : Prop :=
  ∀ timer ∈ m.timers, nowNs < timer.nextFireNs

def TimerManager.Positive (m : TimerManager) : Prop := ∀ timer ∈ m.timers, 0 < timer.intervalNs

instance (nowNs : UInt64) (m : TimerManager) : Decidable (m.Later nowNs) :=
  inferInstanceAs (Decidable (∀ timer ∈ m.timers, _))

/-- An interval of zero is not asked for. -/
def ContextCall.Positive : ContextCall → Prop
  | .setTimer intervalNs => 0 < intervalNs
  | _ => True

/-- A turn of the loop: when it begins, and what `poll` returns. -/
structure LoopTurn where
  startNs : UInt64
  polled : Option (Event × Reaction)

/-- The clock does not go back and has not reached its last value; intervals are at least one. -/
structure LoopTurn.Timely (turn : LoopTurn) : Prop where
  bound : turn.startNs.toNat < 2 ^ 64 - 1
  clock : ∀ event reaction, turn.polled = some (event, reaction) → turn.startNs ≤ reaction.tickNs
  calls : ∀ event reaction, turn.polled = some (event, reaction) →
    ∀ call ∈ reaction.calls, call.Positive
  timerCalls : ∀ event reaction, turn.polled = some (event, reaction) →
    ∀ calls ∈ reaction.timerCalls, ∀ call ∈ calls, call.Positive

def LoopTurn.IsShutdown (turn : LoopTurn) : Prop :=
  ∃ reaction, turn.polled = some (.shutdown, reaction)

def Session.loop (s : Session) (turn : LoopTurn) : Session := s.turn turn.polled

/-- At the end of the turn no live timer is due since the turn began. -/
def Session.LeavesNothingDue (s : Session) (turn : LoopTurn) : Prop :=
  s.running → ¬ turn.IsShutdown → (s.loop turn).runner.timers.Later turn.startNs

/-- Where `poll` returns nothing, nothing is due. -/
def Session.IdleWhenNothingDue (s : Session) (turn : LoopTurn) : Prop :=
  s.running → turn.polled = none → s.runner.timers.Later turn.startNs

namespace TimerManager
variable {m : TimerManager}

theorem mem_cancelTimer {timer : TimerState} {timerId : UInt64}
    (h : timer ∈ (m.cancelTimer timerId).1.timers) : timer ∈ m.timers := by
  rcases cancelTimer_cases m timerId with ⟨heq, _⟩ | ⟨i, hi, _, heq⟩
  · rwa [heq] at h
  · rw [heq] at h
    exact List.mem_of_mem_eraseIdx ((swapRemove_perm hi).mem_iff.mp h)

/-- A property of single timers is kept by a call whose new timer has it. -/
theorem perform_keeps {P : TimerState → Prop} {nowNs : UInt64} {call : ContextCall}
    (hnew : ∀ id intervalNs, call = .setTimer intervalNs →
      P ⟨id, intervalNs, saturatingAdd nowNs intervalNs⟩)
    (h : ∀ timer ∈ m.timers, P timer) : ∀ timer ∈ (perform nowNs m call).timers, P timer := by
  intro timer htimer
  cases call with
  | setTimer intervalNs =>
    rcases List.mem_append.mp htimer with hold | hlast
    · exact h timer hold
    · rw [List.mem_singleton.mp hlast]
      exact hnew m.nextId intervalNs rfl
  | cancelTimer timerId => exact h timer (mem_cancelTimer htimer)
  | submitIntent intent => exact h timer htimer
  | subscribeQuote source instrumentId => exact h timer htimer
  | connectTrade source => exact h timer htimer
  | cancelAll instrumentId => exact h timer htimer

theorem Positive.perform (h : m.Positive) {nowNs : UInt64} {call : ContextCall}
    (hcall : call.Positive) : (m.perform nowNs call).Positive := by
  refine perform_keeps (P := fun timer => 0 < timer.intervalNs) ?_ h
  rintro id intervalNs rfl
  exact hcall

theorem Positive.dueTimers (h : m.Positive) (nowNs : UInt64) : (m.dueTimers nowNs).1.Positive := by
  intro timer htimer
  obtain ⟨old, hold, rfl⟩ := List.mem_map.mp htimer
  have hinterval : ((TimerState.rearmed nowNs old).intervalNs) = old.intervalNs :=
    TimerState.rearmed_intervalNs nowNs old
  change 0 < (TimerState.rearmed nowNs old).intervalNs
  rw [hinterval]
  exact h old hold

theorem Positive.afterCalls (h : m.Positive) {nowNs : UInt64} {calls : List ContextCall}
    (hcalls : ∀ call ∈ calls, call.Positive) : (m.afterCalls nowNs calls).Positive :=
  afterCalls_keeps (fun _ call hcall hm => hm.perform (hcalls call hcall)) h

theorem Positive.afterTick (h : m.Positive) {nowNs : UInt64} {calls : List (List ContextCall)}
    (hcalls : ∀ called ∈ calls, ∀ call ∈ called, call.Positive) :
    (m.afterTick nowNs calls).Positive :=
  afterWalk_keeps _ (fun _ called hcalled call hcall hm => hm.perform (hcalls called hcalled call hcall))
    (h.dueTimers nowNs)

/-- Set or set again at a reading that is not earlier, a timer fires later; the sum may saturate. -/
theorem lt_saturatingAdd {startNs nowNs intervalNs : UInt64} (hbound : startNs.toNat < 2 ^ 64 - 1)
    (hclock : startNs ≤ nowNs) (hinterval : 0 < intervalNs) :
    startNs < saturatingAdd nowNs intervalNs := by
  have hle := UInt64.le_iff_toNat_le.mp hclock
  have hpos := UInt64.lt_iff_toNat_lt.mp hinterval
  rw [UInt64.lt_iff_toNat_lt, toNat_saturatingAdd]
  rw [UInt64.toNat_zero] at hpos
  omega

theorem later_dueTimers (h : m.Positive) {startNs nowNs : UInt64}
    (hbound : startNs.toNat < 2 ^ 64 - 1) (hclock : startNs ≤ nowNs) :
    (m.dueTimers nowNs).1.Later startNs := by
  intro timer htimer
  obtain ⟨old, hold, rfl⟩ := List.mem_map.mp htimer
  split
  · exact lt_saturatingAdd hbound hclock (h old hold)
  · rename_i hlater
    exact UInt64.lt_of_le_of_lt hclock (UInt64.not_le.mp hlater)

theorem later_afterTick (h : m.Positive) {startNs nowNs : UInt64}
    (hbound : startNs.toNat < 2 ^ 64 - 1) (hclock : startNs ≤ nowNs)
    {calls : List (List ContextCall)} (hcalls : ∀ called ∈ calls, ∀ call ∈ called, call.Positive) :
    (m.afterTick nowNs calls).Later startNs := by
  refine afterWalk_keeps (P := Later startNs) _ ?_ (later_dueTimers h hbound hclock)
  intro m called hcalled call hcall hm
  refine perform_keeps (P := fun timer => startNs < timer.nextFireNs) ?_ hm
  rintro id intervalNs rfl
  exact lt_saturatingAdd hbound hclock (hcalls called hcalled _ hcall)

end TimerManager

namespace Session
variable {s : Session} {turn : LoopTurn}

theorem directCalls_subset (r : StrategyRunner) (event : Event) (reaction : Reaction) :
    r.directCalls event reaction ⊆ reaction.calls := by
  cases event with
  | data sourceId payload =>
    simp only [StrategyRunner.directCalls]
    split
    · exact List.Subset.refl _
    · exact List.nil_subset _
  | shutdown => exact List.Subset.refl _
  | control => exact List.nil_subset _
  | external => exact List.nil_subset _
  | timer => exact List.nil_subset _

theorem positive_directCalls (ht : turn.Timely) {event : Event} {reaction : Reaction}
    (hpolled : turn.polled = some (event, reaction)) (r : StrategyRunner) (nowNs : UInt64)
    (hr : r.timers.Positive) : (r.timers.afterCalls nowNs (r.directCalls event reaction)).Positive :=
  hr.afterCalls fun call hcall =>
    ht.calls event reaction hpolled call (directCalls_subset r event reaction hcall)

theorem positive_loop (hs : s.runner.timers.Positive) (ht : turn.Timely) :
    (s.loop turn).runner.timers.Positive := by
  unfold loop
  cases hpolled : turn.polled with
  | none => exact hs
  | some input =>
    obtain ⟨event, reaction⟩ := input
    rw [timers_turn_some]
    split
    · have hdirect := positive_directCalls ht hpolled s.runner
      have hticks := ht.timerCalls event reaction hpolled
      cases event with
      | shutdown => exact hdirect reaction.contextNs hs
      | data sourceId payload => exact (hdirect reaction.nowNs hs).afterTick hticks
      | control => exact (hdirect reaction.nowNs hs).afterTick hticks
      | external => exact (hdirect reaction.nowNs hs).afterTick hticks
      | timer => exact (hdirect reaction.nowNs hs).afterTick hticks
    · exact hs

/-- The end of every handled event but a shutdown is a tick at a later reading of the clock. -/
theorem later_loop_of_event (hs : s.runner.timers.Positive) (ht : turn.Timely)
    (hrunning : s.running = true) {event : Event} {reaction : Reaction}
    (hpolled : turn.polled = some (event, reaction)) (hevent : ¬ turn.IsShutdown) :
    (s.loop turn).runner.timers.Later turn.startNs := by
  have hdirect := positive_directCalls ht hpolled s.runner reaction.nowNs hs
  have htick := TimerManager.later_afterTick hdirect ht.bound (ht.clock event reaction hpolled)
    (ht.timerCalls event reaction hpolled)
  rw [loop, hpolled, timers_turn_some, if_pos hrunning]
  cases event with
  | shutdown => exact absurd ⟨reaction, hpolled⟩ hevent
  | data sourceId payload => exact htick
  | control => exact htick
  | external => exact htick
  | timer => exact htick

theorem leavesNothingDue_iff (hs : s.runner.timers.Positive) (ht : turn.Timely) :
    s.LeavesNothingDue turn ↔ s.IdleWhenNothingDue turn := by
  unfold LeavesNothingDue IdleWhenNothingDue
  constructor
  · intro h hrunning hidle
    have hnot : ¬ turn.IsShutdown := by
      rintro ⟨reaction, hpolled⟩
      rw [hidle] at hpolled
      cases hpolled
    have hlater := h hrunning hnot
    rwa [loop, hidle] at hlater
  · intro h hrunning hevent
    cases hpolled : turn.polled with
    | none =>
      rw [loop, hpolled]
      exact h hrunning hpolled
    | some input =>
      obtain ⟨event, reaction⟩ := input
      exact later_loop_of_event hs ht hrunning hpolled hevent

theorem positive_launched (config : RunnerConfig) (registered : Except RunnerError Unit)
    {reaction : Reaction} (hcalls : ∀ call ∈ reaction.calls, call.Positive) :
    (launched config registered reaction).runner.timers.Positive := by
  have hdefault : TimerManager.default.Positive := fun _ hmem => absurd hmem List.not_mem_nil
  rw [timers_launched]
  apply hdefault.afterCalls
  unfold startCalls
  split
  · exact hcalls
  · exact fun _ hmem => absurd hmem List.not_mem_nil

/-- Nothing due is left behind in any turn exactly when nothing is due in the
turns in which `poll` returns nothing. -/
theorem leaves_nothing_due_iff (config : RunnerConfig) (registered : Except RunnerError Unit)
    (reaction : Reaction) (turns : List LoopTurn) (hcalls : ∀ call ∈ reaction.calls, call.Positive)
    (hturns : ∀ turn ∈ turns, turn.Timely) :
    Guarded loop LeavesNothingDue (launched config registered reaction) turns ↔
      Guarded loop IdleWhenNothingDue (launched config registered reaction) turns := by
  have hpositive := positive_launched config registered hcalls
  have hallowed : Guarded loop (fun _ turn => turn.Timely) (launched config registered reaction)
      turns := guarded_of_forall fun turn hturn _ => hturns turn hturn
  have hkeep : ∀ (s : Session) (turn : LoopTurn), s.runner.timers.Positive → turn.Timely →
      (s.loop turn).runner.timers.Positive := fun _ _ hs ht => positive_loop hs ht
  exact guarded_iff_of_allowed hkeep (fun _ _ hs ht => leavesNothingDue_iff hs ht) hpositive hallowed

def aloneConfig : RunnerConfig := ⟨none, 0, false, "strategy"⟩

/-- `on_start` sets one timer for time 10. -/
def startsTimer : Reaction := ⟨.alone, 0, 0, [.setTimer 10], 0, []⟩

/-- The timer is set once more from its own callback. -/
def controlTurn : LoopTurn := ⟨20, some (.control, ⟨.alone, 20, 20, [], 20, [[.setTimer 1]]⟩)⟩

theorem leaves_nothing_due_control :
    Guarded loop LeavesNothingDue (launched aloneConfig (.ok ()) startsTimer) [controlTurn] := by
  refine (leaves_nothing_due_iff aloneConfig (.ok ()) startsTimer [controlTurn] ?_ ?_).mpr ?_
  · intro call hcall
    rw [List.mem_singleton.mp hcall]
    exact (by decide : (0 : UInt64) < 10)
  · intro turn hturn
    rw [List.mem_singleton.mp hturn]
    refine ⟨by decide, ?_, ?_, ?_⟩
    · rintro event reaction ⟨rfl⟩
      exact UInt64.le_refl 20
    · rintro event reaction ⟨rfl⟩ call hcall
      cases hcall
    · rintro event reaction ⟨rfl⟩ calls hcalls call hcall
      rw [List.mem_singleton.mp hcalls] at hcall
      rw [List.mem_singleton.mp hcall]
      exact (by decide : (0 : UInt64) < 1)
  · refine guarded_cons.mpr ⟨?_, guarded_nil⟩
    intro _ hidle
    cases hidle

/-- Set for time 10, the timer is still due after a turn at time 20 in which nothing arrived. -/
theorem due_timer_left_behind :
    ¬ ∀ (config : RunnerConfig) (registered : Except RunnerError Unit) (reaction : Reaction)
      (turns : List LoopTurn), (∀ call ∈ reaction.calls, call.Positive) →
      (∀ turn ∈ turns, turn.Timely) →
      Guarded loop LeavesNothingDue (launched config registered reaction) turns := by
  intro h
  have hcalls : ∀ call ∈ startsTimer.calls, call.Positive := by
    intro call hcall
    rw [List.mem_singleton.mp hcall]
    exact (by decide : (0 : UInt64) < 10)
  have htimely : ∀ turn ∈ [(⟨20, none⟩ : LoopTurn)], turn.Timely := by
    intro turn hturn
    rw [List.mem_singleton.mp hturn]
    refine ⟨by decide, ?_, ?_, ?_⟩ <;> intro event reaction hpolled <;> cases hpolled
  have hleaves := h aloneConfig (.ok ()) startsTimer [⟨20, none⟩] hcalls htimely [] _
    (List.prefix_refl _) rfl (by rintro ⟨reaction, hpolled⟩; cases hpolled)
  have htimers : (launched aloneConfig (.ok ()) startsTimer).runner.timers = ⟨1, [⟨0, 10, 10⟩]⟩ := by
    rw [timers_launched]
    decide
  change TimerManager.Later 20 (launched aloneConfig (.ok ()) startsTimer).runner.timers at hleaves
  rw [htimers] at hleaves
  exact absurd hleaves (by decide)

end Session

end Nnxt
