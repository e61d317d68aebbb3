import Nnxt.ReactorTimers

/-!
# How long a due timer waits

The timers are looked at only in every thousandth poll that has found nothing else to
do, by a counter that wraps around. A poll that finds something does not count, so a
busy reactor leaves its timers alone for as long as it is busy.
-/

namespace Nnxt.Polling

set_option autoImplicit false

variable {T E : Type}

/-- No message waits at the control socket for want of a listener. -/
def Unblocked (r : Reactor T E) : Prop := r.controlRx.isSome ∨ r.controlSocket = none

/-- The poll has found nothing, or nothing but a timer. -/
def Idle : Option (Event T E) → Bool
  | none | some (.timer _) => true
  | _ => false

def idlePolls (events : List (Option (Event T E))) : Nat := events.countP Idle

def timerPolls (events : List (Option (Event T E))) : Nat := (events.flatMap timerIds).length

/-- The entries that are due whatever the clock says along the run. -/
def dueThroughout (m : TimerManager) (inputs : List (PollInput E)) : Nat :=
  m.timers.countP fun timer => inputs.all fun input => timer.dueNs ≤ input.nowNs

/-- How many idle polls come before the next look at the timers. -/
def untilLook (count : UInt64) : Nat :=
  min ((999 - count.toNat % 1000) % 1000) (2 ^ 64 - 1 - count.toNat)

section Counter

theorem untilLook_lt (count : UInt64) : untilLook count < 1000 :=
  Nat.lt_of_le_of_lt (Nat.min_le_left _ _) (Nat.mod_lt _ (by decide))

theorem toNat_succ {count : UInt64} (h : count.toNat + 1 < 2 ^ 64) :
    (count + 1).toNat = count.toNat + 1 := by
  rw [UInt64.toNat_add, UInt64.toNat_one, Nat.mod_eq_of_lt h]

/-- The next poll looks at the timers when none is left before it. -/
theorem looks_iff (count : UInt64) :
    (count + 1) % controlPollInterval = 0 ↔ untilLook count = 0 := by
  have hlt := count.toNat_lt
  have hinterval : controlPollInterval.toNat = 1000 := rfl
  rw [← UInt64.toNat_inj, UInt64.toNat_mod, UInt64.toNat_zero, hinterval, untilLook]
  by_cases hlast : count.toNat + 1 = 2 ^ 64
  · have hwrapped : (count + 1).toNat = 0 := by
      rw [UInt64.toNat_add, UInt64.toNat_one, hlast, Nat.mod_self]
    rw [hwrapped]
    omega
  · rw [toNat_succ (by omega)]
    omega

theorem untilLook_succ {count : UInt64} (h : untilLook count ≠ 0) :
    untilLook (count + 1) + 1 = untilLook count := by
  have hlt := count.toNat_lt
  simp only [untilLook] at h ⊢
  rw [toNat_succ (by omega)]
  omega

end Counter

section Polls
variable {r : Reactor T E} {nowNs : UInt64}

/-- A poll finds something, or counts; one that counts may look at the timers. -/
inductive Polled (r : Reactor T E) (nowNs : UInt64) (after : Reactor T E × Option (Event T E)) :
    Prop where
  | busy (found : Idle after.2 = false) (count : after.1.pollCount = r.pollCount)
      (timers : after.1.timers = r.timers)
  | counted (early : untilLook r.pollCount ≠ 0) (count : after.1.pollCount = r.pollCount + 1)
      (timers : after.1.timers = r.timers) (answer : after.2 = none)
  | looked (due : untilLook r.pollCount = 0) (count : after.1.pollCount = r.pollCount + 1)
      (timers : after.1.timers = (r.timers.pollDue nowNs).1)
      (answer : after.2 = (r.timers.pollDue nowNs).2.map .timer)

theorem idle_eq_false {event : Event T E} (h : timerIds (some event) = []) :
    Idle (some event) = false := by
  cases event with
  | timer timerId => cases h
  | _ => rfl

theorem polled_pollCounted (hr : Unblocked r) (nowNs : UInt64) :
    Polled r nowNs (r.pollCounted nowNs) := by
  unfold Reactor.pollCounted
  dsimp only
  split
  · rename_i hlook
    rw [looks_iff] at hlook
    split
    · rename_i hrx hsocket
      rcases hr with hlistener | hnone
      · rw [hrx] at hlistener
        cases hlistener
      · rw [hnone] at hsocket
        cases hsocket
    · exact .looked hlook rfl rfl rfl
  · rename_i hlook
    rw [looks_iff] at hlook
    exact .counted hlook rfl rfl rfl

theorem polled_pollChannels (hr : Unblocked r) (nowNs : UInt64) :
    Polled r nowNs (r.pollChannels nowNs) := by
  unfold Reactor.pollChannels
  split
  · exact .busy rfl rfl rfl
  · exact .busy rfl rfl rfl
  · exact polled_pollCounted hr nowNs

theorem unblocked_pollChannels (hr : Unblocked r) (nowNs : UInt64) :
    Unblocked (r.pollChannels nowNs).1 := by
  unfold Reactor.pollChannels
  split
  · exact hr
  · exact .inl rfl
  · unfold Reactor.pollCounted
    dsimp only
    split
    · split
      · rename_i hrx hsocket
        rcases hr with hlistener | hnone
        · rw [hrx] at hlistener
          cases hlistener
        · rw [hnone] at hsocket
          cases hsocket
      · exact hr
    · exact hr

theorem unblocked_arrive (hr : Unblocked r) (input : PollInput E) :
    Unblocked (r.arrive input) ∧ (r.arrive input).timers = r.timers ∧
      (r.arrive input).pollCount = r.pollCount := by
  rcases r with ⟨queues, sources, socket, channel, rx, timers, count⟩
  cases rx with
  | some received => cases socket <;> exact ⟨.inl rfl, rfl, rfl⟩
  | none =>
    rcases hr with hlistener | hnone
    · cases hlistener
    · simp only at hnone
      subst hnone
      exact ⟨.inr rfl, rfl, rfl⟩

theorem unblocked_ensureControlListener (hr : Unblocked r) (spawned : Bool) :
    Unblocked (r.ensureControlListener spawned) ∧
      (r.ensureControlListener spawned).timers = r.timers ∧
      (r.ensureControlListener spawned).pollCount = r.pollCount := by
  unfold Reactor.ensureControlListener
  split
  · exact ⟨hr, rfl, rfl⟩
  · split
    · exact ⟨.inl rfl, rfl, rfl⟩
    · exact ⟨hr, rfl, rfl⟩

theorem Polled.of_same {r' : Reactor T E} {after : Reactor T E × Option (Event T E)}
    (h : Polled r' nowNs after) (htimers : r'.timers = r.timers)
    (hcount : r'.pollCount = r.pollCount) : Polled r nowNs after := by
  cases h with
  | busy found count timers => exact .busy found (count.trans hcount) (timers.trans htimers)
  | counted early count timers answer =>
    rw [hcount] at early count
    exact .counted early count (timers.trans htimers) answer
  | looked due count timers answer =>
    rw [hcount] at due count
    rw [htimers] at timers answer
    exact .looked due count timers answer

theorem polled_step (hr : Unblocked r) (input : PollInput E) :
    Unblocked (r.step input).1 ∧ Polled r input.nowNs (r.step input) := by
  obtain ⟨harrived, htimers, hcount⟩ := unblocked_arrive hr input
  obtain ⟨hlistening, htimers', hcount'⟩ :=
    unblocked_ensureControlListener harrived input.spawned
  rw [htimers] at htimers'
  rw [hcount] at hcount'
  unfold Reactor.step Reactor.poll
  split
  · exact ⟨harrived, .busy rfl hcount htimers⟩
  · have hsilent := timerIds_pollSources (E := E)
      ((r.arrive input).ensureControlListener input.spawned).queues
      ((r.arrive input).ensureControlListener input.spawned).rapidSources
    dsimp only
    split
    · rename_i hpoll
      rw [hpoll] at hsilent
      exact ⟨hlistening, .busy (idle_eq_false hsilent) hcount' htimers'⟩
    · rename_i queues _
      have hsame : Unblocked ({ (r.arrive input).ensureControlListener input.spawned with
          queues := queues } : Reactor T E) := hlistening
      exact ⟨unblocked_pollChannels hsame input.nowNs,
        (polled_pollChannels hsame input.nowNs).of_same htimers' hcount'⟩

end Polls

section Runs
variable {r : Reactor T E} {inputs : List (PollInput E)}

/-- How many polls of a run look at the timers. -/
def looks (r : Reactor T E) : List (PollInput E) → Nat
  | [] => 0
  | input :: inputs =>
    (if Idle (r.step input).2 ∧ untilLook r.pollCount = 0 then 1 else 0) +
      looks (r.step input).1 inputs

/-- A thousand idle polls cannot go by without a look at the timers, also where the
counter wraps around. -/
theorem idlePolls_le (hr : Unblocked r) (inputs : List (PollInput E)) :
    idlePolls (r.pollAll inputs).2 ≤ untilLook r.pollCount + 1000 * looks r inputs := by
  induction inputs generalizing r with
  | nil => exact Nat.zero_le _
  | cons input inputs ih =>
    obtain ⟨hnext, hpolled⟩ := polled_step hr input
    have hrest := ih hnext
    simp only [Reactor.pollAll, idlePolls, List.countP_cons, looks] at hrest ⊢
    cases hpolled with
    | busy found count timers =>
      rw [count] at hrest
      simp only [found, Bool.false_eq_true, if_false, false_and]
      omega
    | counted early count timers answer =>
      have hnearer := untilLook_succ early
      rw [count] at hrest
      simp only [early, and_false, if_false]
      split <;> omega
    | looked due count timers answer =>
      have hfar := untilLook_lt (r.step input).1.pollCount
      have hidle : Idle (r.step input).2 = true := by
        rw [answer]
        cases (r.timers.pollDue input.nowNs).2 <;> rfl
      simp only [hidle, due, and_self, if_true]
      omega

theorem dueThroughout_tail (m : TimerManager) (input : PollInput E) (inputs : List (PollInput E)) :
    dueThroughout m (input :: inputs) ≤ dueThroughout m inputs := by
  refine List.countP_mono_left fun timer _ hdue => ?_
  rw [List.all_cons, Bool.and_eq_true] at hdue
  exact hdue.2

/-- A look finds nothing due, or returns a timer and takes no other. -/
theorem dueThroughout_pollDue (m : TimerManager) (input : PollInput E)
    (inputs : List (PollInput E)) :
    dueThroughout m (input :: inputs) = 0 ∨
      (m.pollDue input.nowNs).2.toList.length = 1 ∧
        dueThroughout m (input :: inputs) ≤
          1 + dueThroughout (m.pollDue input.nowNs).1 inputs := by
  rcases m.pollDue_cases input.nowNs with ⟨hdue, -⟩ | ⟨entry, -, hanswer, hrest⟩
  · left
    rw [TimerManager.due_eq_none_iff] at hdue
    rw [dueThroughout, List.countP_eq_zero]
    intro timer htimer hall
    rw [List.all_cons, Bool.and_eq_true, decide_eq_true_eq] at hall
    exact UInt64.not_le.mpr (hdue timer htimer) hall.1
  · right
    refine ⟨by rw [hanswer]; rfl, Nat.le_trans (dueThroughout_tail m input inputs) ?_⟩
    rw [dueThroughout, ← hrest.countP_eq, List.countP_cons, dueThroughout]
    split <;> omega

theorem looks_answered (hr : Unblocked r) (inputs : List (PollInput E)) :
    min (dueThroughout r.timers inputs) (looks r inputs) ≤ timerPolls (r.pollAll inputs).2 := by
  induction inputs generalizing r with
  | nil => exact Nat.le_trans (Nat.min_le_right _ _) (Nat.zero_le _)
  | cons input inputs ih =>
    obtain ⟨hnext, hpolled⟩ := polled_step hr input
    have hrest := ih hnext
    have htail := dueThroughout_tail r.timers input inputs
    simp only [Reactor.pollAll, timerPolls, List.flatMap_cons, List.length_append, looks]
      at hrest ⊢
    cases hpolled with
    | busy found count timers =>
      rw [timers] at hrest
      simp only [found, Bool.false_eq_true, false_and, if_false]
      omega
    | counted early count timers answer =>
      rw [timers] at hrest
      simp only [early, and_false, if_false]
      omega
    | looked due count timers answer =>
      have hids : timerIds (r.step input).2 = (r.timers.pollDue input.nowNs).2.toList := by
        rw [answer]
        cases (r.timers.pollDue input.nowNs).2 <;> rfl
      rw [timers] at hrest
      rw [hids]
      rcases dueThroughout_pollDue r.timers input inputs with hnone | ⟨hone, htaken⟩
      · omega
      · split <;> omega

/-- Among a thousand polls that find nothing else to do there is one that returns a due
timer as long as there is one, however many of the other polls find something. -/
theorem due_timers_answered (hr : Unblocked r) (inputs : List (PollInput E)) :
    min (dueThroughout r.timers inputs) (idlePolls (r.pollAll inputs).2 / 1000) ≤
      timerPolls (r.pollAll inputs).2 := by
  have hidle := idlePolls_le hr inputs
  have hfirst := untilLook_lt r.pollCount
  have hanswered := looks_answered hr inputs
  omega

end Runs

/-- Two timers, and a counter that is about to wrap around. -/
def wrappingSoon : Reactor Nat Unit :=
  { (Reactor.new [] : Reactor Nat Unit) with
    timers := ⟨[⟨3, 10⟩, ⟨4, 20⟩]⟩
    pollCount := 18446744073709551316 }

def idleInput : PollInput Unit := ⟨false, [], [], 0, false, 50⟩

theorem due_timers_answered_wrapping :
    2 ≤ timerPolls (wrappingSoon.pollAll (List.replicate 2000 idleInput)).2 := by
  have hdue : dueThroughout wrappingSoon.timers (List.replicate 2000 idleInput) = 2 := by
    decide +kernel
  have hidle : idlePolls (wrappingSoon.pollAll (List.replicate 2000 idleInput)).2 = 2000 := by
    decide +kernel
  have hanswered := due_timers_answered (r := wrappingSoon) (.inr rfl)
    (List.replicate 2000 idleInput)
  rw [hdue, hidle] at hanswered
  exact hanswered

end Nnxt.Polling
