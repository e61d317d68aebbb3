import Mathlib.Data.List.Chain
import Nnxt.TimerSchedule
import Nnxt.Foundation.Transition

/-!
# Timers keep their schedule

The calls on the timer manager in any order and any number, with what they have
returned. The clock readings need not be ordered for what is shown here.
-/

namespace Nnxt

set_option autoImplicit false

open Transition KeyedList FixedWidth

inductive TimerCall where
  | set (intervalNs nowNs : UInt64)
  | cancel (timerId : UInt64)
  | due (nowNs : UInt64)
  deriving DecidableEq, Repr

/-- A call of `set_timer`: its arguments and the id it returned. -/
structure SetTimer where
  timerId : UInt64
  intervalNs : UInt64
  setNs : UInt64
  deriving DecidableEq, Repr

/-- The manager and its past: the timers set, the ids cancelled with success, the events returned. -/
structure TimerHistory where
  manager : TimerManager
  sets : List SetTimer
  cancelled : List UInt64
  firings : List TimerEvent
  deriving DecidableEq, Repr

namespace TimerHistory

def start : TimerHistory := ⟨TimerManager.default, [], [], []⟩

def step (h : TimerHistory) : TimerCall → TimerHistory
  | .set intervalNs nowNs =>
    let (manager, timerId) := h.manager.setTimer intervalNs nowNs
    { h with manager := manager, sets := h.sets ++ [⟨timerId, intervalNs, nowNs⟩] }
  | .cancel timerId =>
    let (manager, found) := h.manager.cancelTimer timerId
    { h with manager := manager, cancelled := if found then h.cancelled ++ [timerId] else h.cancelled }
  | .due nowNs =>
    let (manager, events) := h.manager.dueTimers nowNs
    { h with manager := manager, firings := h.firings ++ events }

/-- No sum of a clock reading and an interval goes beyond `u64::MAX`. -/
def Unsaturated (h : TimerHistory) : TimerCall → Prop
  | .set intervalNs nowNs => nowNs.toNat + intervalNs.toNat < 2 ^ 64
  | .cancel _ => True
  | .due nowNs => ∀ timer ∈ h.manager.timers, timer.nextFireNs ≤ nowNs →
      nowNs.toNat + timer.intervalNs.toNat < 2 ^ 64

instance (h : TimerHistory) : (call : TimerCall) → Decidable (h.Unsaturated call)
  | .set _ _ => inferInstanceAs (Decidable (_ < _))
  | .cancel _ => .isTrue trivial
  | .due _ => inferInstanceAs (Decidable (∀ timer ∈ h.manager.timers, _ → _))

def firingTimes (h : TimerHistory) (timerId : UInt64) : List UInt64 :=
  (h.firings.filter fun event => event.timerId = timerId).map (·.timestamp)

/-- When a timer was set and when it has fired, in order. -/
def times (h : TimerHistory) (timer : SetTimer) : List UInt64 :=
  timer.setNs :: h.firingTimes timer.timerId

/-- What the past of one timer says about its present. -/
structure OnSchedule (h : TimerHistory) (timer : SetTimer) : Prop where
  /-- The first firing is an interval after the set time, each later one after the one before. -/
  spaced : (h.times timer).IsChain fun t u => t.toNat + timer.intervalNs.toNat ≤ u.toNat
  live : (h.manager.schedule timer.timerId).isSome ↔ timer.timerId ∉ h.cancelled
  armed : ∀ state, h.manager.schedule timer.timerId = some state →
    state.intervalNs = timer.intervalNs ∧
      ∀ last ∈ (h.times timer).getLast?, state.nextFireNs.toNat = last.toNat + timer.intervalNs.toNat

/-- Every live timer that is due, once, and nothing else. -/
structure ReturnsDue (m : TimerManager) (nowNs : UInt64) : Prop where
  once : ((m.dueTimers nowNs).2.map (·.timerId)).Nodup
  exact : ∀ event, event ∈ (m.dueTimers nowNs).2 ↔ event.timestamp = nowNs ∧
    ∃ timer, m.schedule event.timerId = some timer ∧ timer.nextFireNs ≤ nowNs

/-- Neither the presence nor the schedule of a timer depends on what happens to the others. -/
structure OthersKept (m : TimerManager) : Prop where
  set : ∀ intervalNs nowNs other, other ≠ (m.setTimer intervalNs nowNs).2 →
    (m.setTimer intervalNs nowNs).1.schedule other = m.schedule other
  cancel : ∀ timerId other, other ≠ timerId →
    (m.cancelTimer timerId).1.schedule other = m.schedule other
  fire : ∀ nowNs other, (∀ event ∈ (m.dueTimers nowNs).2, event.timerId ≠ other) →
    (m.dueTimers nowNs).1.schedule other = m.schedule other
  own : ∀ nowNs timerId, (m.dueTimers nowNs).1.schedule timerId =
    (m.schedule timerId).map (TimerState.rearmed nowNs)

structure Kept (h : TimerHistory) : Prop where
  issued : h.manager.Issued h.sets.length
  distinct : (h.sets.map (·.timerId)).Nodup
  below : ∀ timer ∈ h.sets, timer.timerId.toNat < h.sets.length
  cancelledBelow : ∀ timerId ∈ h.cancelled, timerId.toNat < h.sets.length
  firedBelow : ∀ event ∈ h.firings, event.timerId.toNat < h.sets.length
  onSchedule : ∀ timer ∈ h.sets, h.OnSchedule timer

theorem kept_start : start.Kept where
  issued := TimerManager.issued_default
  distinct := List.nodup_nil
  below := fun _ h => absurd h List.not_mem_nil
  cancelledBelow := fun _ h => absurd h List.not_mem_nil
  firedBelow := fun _ h => absurd h List.not_mem_nil
  onSchedule := fun _ h => absurd h List.not_mem_nil

theorem OnSchedule.congr {h h' : TimerHistory} {timer : SetTimer} (hon : h.OnSchedule timer)
    (hlive : h'.manager.schedule timer.timerId = h.manager.schedule timer.timerId)
    (hcancelled : timer.timerId ∈ h'.cancelled ↔ timer.timerId ∈ h.cancelled)
    (htimes : h'.firingTimes timer.timerId = h.firingTimes timer.timerId) :
    h'.OnSchedule timer := by
  have heq : h'.times timer = h.times timer := congrArg (List.cons timer.setNs) htimes
  constructor
  · rw [heq]
    exact hon.spaced
  · rw [hlive, hcancelled]
    exact hon.live
  · rw [hlive, heq]
    exact hon.armed

section Steps
variable {h : TimerHistory}

/-- A timer that is set has not fired before and is due one interval later. -/
theorem Kept.onSchedule_set (hk : h.Kept) {intervalNs nowNs : UInt64}
    (hroom : h.sets.length < 2 ^ 64) (hsum : nowNs.toNat + intervalNs.toNat < 2 ^ 64) :
    (h.step (.set intervalNs nowNs)).OnSchedule ⟨h.manager.nextId, intervalNs, nowNs⟩ := by
  have hnext := hk.issued.toNat_nextId hroom
  have hsched := TimerManager.schedule_setTimer hk.issued hroom intervalNs nowNs
  have hnone : h.firingTimes h.manager.nextId = [] := by
    rw [firingTimes, List.map_eq_nil_iff, List.filter_eq_nil_iff]
    intro event hevent heq
    have hlt := hk.firedBelow event hevent
    rw [of_decide_eq_true heq, hnext] at hlt
    omega
  have htimes : (h.step (.set intervalNs nowNs)).times ⟨h.manager.nextId, intervalNs, nowNs⟩ =
      [nowNs] := congrArg (List.cons nowNs) hnone
  have hself : (h.step (.set intervalNs nowNs)).manager.schedule h.manager.nextId =
      some ⟨h.manager.nextId, intervalNs, saturatingAdd nowNs intervalNs⟩ :=
    (congrFun hsched h.manager.nextId).trans (Function.update_self _ _ _)
  constructor
  · exact htimes ▸ List.isChain_singleton nowNs
  · refine iff_of_true ?_ fun hmem => ?_
    · change ((h.step _).manager.schedule h.manager.nextId).isSome = true
      rw [hself]
      rfl
    · have hlt := hk.cancelledBelow _ hmem
      change h.manager.nextId.toNat < h.sets.length at hlt
      omega
  · intro state hstate
    obtain rfl := Option.some.inj (hself.symm.trans hstate)
    refine ⟨rfl, fun last hlast => ?_⟩
    rw [htimes] at hlast
    obtain rfl := Option.some.inj hlast
    rw [toNat_saturatingAdd]
    exact Nat.min_eq_left (by omega)

theorem Kept.set (hk : h.Kept) {intervalNs nowNs : UInt64}
    (hroom : h.sets.length < 2 ^ 64) (hsum : nowNs.toNat + intervalNs.toNat < 2 ^ 64) :
    (h.step (.set intervalNs nowNs)).Kept := by
  have hnext := hk.issued.toNat_nextId hroom
  have hlength : (h.step (.set intervalNs nowNs)).sets.length = h.sets.length + 1 :=
    List.length_append
  have hsched := TimerManager.schedule_setTimer hk.issued hroom intervalNs nowNs
  have hfresh : ∀ timer ∈ h.sets, timer.timerId ≠ h.manager.nextId := by
    intro timer htimer heq
    have hlt := hk.below timer htimer
    rw [heq, hnext] at hlt
    omega
  constructor
  · rw [hlength]
    exact hk.issued.setTimer hroom intervalNs nowNs
  · have hkeyed : Keyed SetTimer.timerId h.sets := hk.distinct
    refine hkeyed.append_singleton (x := ⟨h.manager.nextId, intervalNs, nowNs⟩) ?_
    intro hmem
    obtain ⟨timer, htimer, heq⟩ := List.mem_map.mp hmem
    exact hfresh timer htimer heq
  · rw [hlength]
    intro timer htimer
    rcases List.mem_append.mp htimer with hold | hnew
    · exact Nat.lt_succ_of_lt (hk.below timer hold)
    · rw [List.mem_singleton.mp hnew]
      exact Nat.lt_succ_of_le hnext.le
  · rw [hlength]
    intro timerId hmem
    exact Nat.lt_succ_of_lt (hk.cancelledBelow timerId hmem)
  · rw [hlength]
    intro event hmem
    exact Nat.lt_succ_of_lt (hk.firedBelow event hmem)
  · intro timer htimer
    rcases List.mem_append.mp htimer with hold | hnew
    · refine (hk.onSchedule timer hold).congr ?_ Iff.rfl rfl
      exact (congrFun hsched timer.timerId).trans (Function.update_of_ne (hfresh timer hold) _ _)
    · rw [List.mem_singleton.mp hnew]
      exact hk.onSchedule_set hroom hsum

theorem Kept.cancel (hk : h.Kept) (timerId : UInt64) : (h.step (.cancel timerId)).Kept := by
  have hsched := TimerManager.schedule_cancelTimer hk.issued timerId
  have hreply := TimerManager.snd_cancelTimer h.manager timerId
  have hmem : ∀ other, other ∈ (h.step (.cancel timerId)).cancelled ↔
      other ∈ h.cancelled ∨ other = timerId ∧ (h.manager.schedule timerId).isSome = true := by
    intro other
    rw [← hreply]
    simp only [step]
    split
    · rename_i hfound
      rw [List.mem_append, List.mem_singleton, hfound, and_iff_left rfl]
    · rename_i hfound
      exact ⟨Or.inl, fun hor => hor.resolve_right fun hnew => hfound hnew.2⟩
  refine ⟨hk.issued.cancelTimer timerId, hk.distinct, hk.below, ?_, hk.firedBelow, ?_⟩
  · intro other hother
    rcases (hmem other).mp hother with hold | ⟨rfl, hlive⟩
    · exact hk.cancelledBelow other hold
    · obtain ⟨state, hstate⟩ := Option.isSome_iff_exists.mp hlive
      have hlt := hk.issued.below state (mem_of_entry hstate)
      rwa [key_of_entry hstate] at hlt
  · intro timer htimer
    have hon := hk.onSchedule timer htimer
    by_cases hid : timer.timerId = timerId
    · have hnone : (h.step (.cancel timerId)).manager.schedule timer.timerId = none :=
        (congrFun hsched timer.timerId).trans (by rw [hid, Function.update_self])
      refine ⟨hon.spaced, ?_, fun state hstate => ?_⟩
      · rw [hnone, hmem]
        refine iff_of_false (fun hfalse => by cases hfalse) ?_
        intro hnot
        by_cases hold : timer.timerId ∈ h.cancelled
        · exact hnot (Or.inl hold)
        · exact hnot (Or.inr ⟨hid, hid ▸ hon.live.mpr hold⟩)
      · rw [hnone] at hstate
        cases hstate
    · refine hon.congr ?_ ?_ rfl
      · exact (congrFun hsched timer.timerId).trans (Function.update_of_ne hid _ _)
      · rw [hmem]
        exact ⟨fun hor => hor.resolve_right fun hnew => hid hnew.1, Or.inl⟩

theorem entry_dueTimers {m : TimerManager} {count : Nat} (hissued : m.Issued count)
    (nowNs timerId : UInt64) :
    (m.dueTimers nowNs).2.filter (fun event => event.timerId = timerId) =
      if ∃ timer, m.schedule timerId = some timer ∧ timer.nextFireNs ≤ nowNs
      then [⟨timerId, nowNs⟩] else [] := by
  have hkeyed : Keyed TimerEvent.timerId (m.dueTimers nowNs).2 := hissued.nodup_dueTimers nowNs
  rw [hkeyed.filter_eq_entry]
  split
  · rename_i hdue
    rw [hkeyed.entry_eq_some_iff.mpr ⟨(hissued.mem_dueTimers_iff nowNs ⟨timerId, nowNs⟩).mpr
      ⟨rfl, hdue⟩, rfl⟩]
    rfl
  · rename_i hdue
    cases hentry : entry TimerEvent.timerId (m.dueTimers nowNs).2 timerId with
    | none => rfl
    | some event =>
      obtain ⟨hmem, rfl⟩ := hkeyed.entry_eq_some_iff.mp hentry
      exact absurd ((hissued.mem_dueTimers_iff nowNs event).mp hmem).2 hdue

theorem firingTimes_due {count : Nat} (hissued : h.manager.Issued count) (nowNs timerId : UInt64) :
    (h.step (.due nowNs)).firingTimes timerId = h.firingTimes timerId ++
      if ∃ timer, h.manager.schedule timerId = some timer ∧ timer.nextFireNs ≤ nowNs
      then [nowNs] else [] := by
  change ((h.firings ++ (h.manager.dueTimers nowNs).2).filter _).map _ = _
  rw [List.filter_append, List.map_append, entry_dueTimers hissued, firingTimes]
  congr 1
  split <;> rfl

theorem OnSchedule.due {count : Nat} {timer : SetTimer} (hon : h.OnSchedule timer)
    (hissued : h.manager.Issued count) {nowNs : UInt64} (hsum : h.Unsaturated (.due nowNs)) :
    (h.step (.due nowNs)).OnSchedule timer := by
  have hsched : (h.step (.due nowNs)).manager.schedule timer.timerId =
      (h.manager.schedule timer.timerId).map (TimerState.rearmed nowNs) :=
    TimerManager.schedule_dueTimers h.manager nowNs timer.timerId
  have hfired := firingTimes_due hissued nowNs timer.timerId
  by_cases hdue : ∃ state, h.manager.schedule timer.timerId = some state ∧ state.nextFireNs ≤ nowNs
  · rw [if_pos hdue] at hfired
    have htimes : (h.step (.due nowNs)).times timer = h.times timer ++ [nowNs] :=
      congrArg (List.cons timer.setNs) hfired
    obtain ⟨state, hstate, hle⟩ := hdue
    obtain ⟨hinterval, harmed⟩ := hon.armed state hstate
    rw [hstate, Option.map_some] at hsched
    constructor
    · rw [htimes, List.isChain_append]
      refine ⟨hon.spaced, List.isChain_singleton nowNs, ?_⟩
      intro last hlast next hnext
      obtain rfl := Option.some.inj hnext
      rw [← harmed last hlast]
      exact UInt64.le_iff_toNat_le.mp hle
    · rw [hsched]
      refine iff_of_true rfl (hon.live.mp ?_)
      rw [hstate]
      rfl
    · intro next hnext
      obtain rfl := Option.some.inj (hsched.symm.trans hnext)
      refine ⟨(TimerState.rearmed_intervalNs nowNs state).trans hinterval, fun last hlast => ?_⟩
      rw [htimes, List.getLast?_concat] at hlast
      obtain rfl := Option.some.inj hlast
      have hbound := hsum state (mem_of_entry hstate) hle
      rw [TimerState.rearmed, if_pos hle, ← hinterval]
      change (saturatingAdd nowNs state.intervalNs).toNat = _
      rw [toNat_saturatingAdd]
      exact Nat.min_eq_left (by omega)
  · rw [if_neg hdue, List.append_nil] at hfired
    refine hon.congr ?_ Iff.rfl hfired
    rw [hsched]
    cases hstate : h.manager.schedule timer.timerId with
    | none => rfl
    | some state =>
      rw [Option.map_some, TimerState.rearmed, if_neg fun hle => hdue ⟨state, hstate, hle⟩]

theorem Kept.due (hk : h.Kept) {nowNs : UInt64} (hsum : h.Unsaturated (.due nowNs)) :
    (h.step (.due nowNs)).Kept := by
  refine ⟨hk.issued.dueTimers nowNs, hk.distinct, hk.below, hk.cancelledBelow, ?_, ?_⟩
  · intro event hevent
    rcases List.mem_append.mp hevent with hold | hnew
    · exact hk.firedBelow event hold
    · obtain ⟨timer, htimer, _, rfl⟩ := (TimerManager.mem_snd_dueTimers _ _ _).mp hnew
      exact hk.issued.below timer htimer
  · intro timer htimer
    exact (hk.onSchedule timer htimer).due hk.issued hsum

end Steps

theorem Kept.step {h : TimerHistory} (hk : h.Kept) (call : TimerCall)
    (hroom : (h.step call).sets.length < 2 ^ 64) (hsum : h.Unsaturated call) :
    (h.step call).Kept := by
  cases call with
  | set intervalNs nowNs =>
    have hlength : (h.step (.set intervalNs nowNs)).sets.length = h.sets.length + 1 :=
      List.length_append
    exact hk.set (by omega) hsum
  | cancel timerId => exact hk.cancel timerId
  | due nowNs => exact hk.due hsum

theorem length_sets_le (h : TimerHistory) (call : TimerCall) :
    h.sets.length ≤ (h.step call).sets.length := by
  cases call with
  | set intervalNs nowNs =>
    change h.sets.length ≤ (h.sets ++ [_]).length
    rw [List.length_append]
    exact Nat.le_add_right _ _
  | cancel timerId => exact Nat.le_refl _
  | due nowNs => exact Nat.le_refl _

theorem Kept.returnsDue {h : TimerHistory} (hk : h.Kept) (nowNs : UInt64) :
    ReturnsDue h.manager nowNs where
  once := hk.issued.nodup_dueTimers nowNs
  exact := hk.issued.mem_dueTimers_iff nowNs

theorem Kept.othersKept {h : TimerHistory} (hk : h.Kept) (hroom : h.sets.length < 2 ^ 64) :
    OthersKept h.manager where
  set := by
    intro intervalNs nowNs other hne
    rw [TimerManager.schedule_setTimer hk.issued hroom]
    exact Function.update_of_ne hne _ _
  cancel := by
    intro timerId other hne
    rw [TimerManager.schedule_cancelTimer hk.issued]
    exact Function.update_of_ne hne _ _
  fire := by
    intro nowNs other hnot
    rw [TimerManager.schedule_dueTimers]
    cases hstate : h.manager.schedule other with
    | none => rfl
    | some state =>
      have hlater : ¬ state.nextFireNs ≤ nowNs := by
        intro hle
        exact hnot ⟨other, nowNs⟩ ((hk.issued.mem_dueTimers_iff nowNs ⟨other, nowNs⟩).mpr
          ⟨rfl, state, hstate, hle⟩) rfl
      rw [Option.map_some, TimerState.rearmed, if_neg hlater]
  own := TimerManager.schedule_dueTimers h.manager

/-- Any calls in any order: the ids are distinct, every timer fires at the
times its interval allows, a call of `due_timers` returns what is due once and
nothing else, and no timer is touched by what happens to another. -/
theorem timers_keep_schedule (calls : List TimerCall)
    (hsum : Guarded step Unsaturated start calls)
    (hroom : (run step start calls).sets.length < 2 ^ 64) :
    ((run step start calls).sets.map (·.timerId)).Nodup ∧
      (∀ timer ∈ (run step start calls).sets, (run step start calls).OnSchedule timer) ∧
      (∀ nowNs, ReturnsDue (run step start calls).manager nowNs) ∧
      OthersKept (run step start calls).manager := by
  have hback : ∀ h call, (step h call).sets.length < 2 ^ 64 → h.sets.length < 2 ^ 64 :=
    fun h call hlt => Nat.lt_of_le_of_lt (length_sets_le h call) hlt
  have hk := @run_of_guarded_within TimerHistory TimerCall step Kept
    (fun h => h.sets.length < 2 ^ 64) Unsaturated hback
    (fun h call hk hlt hsum => hk.step call hlt hsum) start calls kept_start hroom hsum
  exact ⟨hk.distinct, hk.onSchedule, hk.returnsDue, hk.othersKept hroom⟩

/-- The vector is reordered by the cancel. -/
def threeTimers : List TimerCall :=
  [.set 10 0, .set 4 1, .set 7 1, .due 5, .cancel 0, .due 12]

theorem timers_keep_schedule_three :
    ((run step start threeTimers).sets.map (·.timerId)).Nodup ∧
      (∀ timer ∈ (run step start threeTimers).sets, (run step start threeTimers).OnSchedule timer) ∧
      (∀ nowNs, ReturnsDue (run step start threeTimers).manager nowNs) ∧
      OthersKept (run step start threeTimers).manager :=
  timers_keep_schedule threeTimers (by decide) (by decide)

example : (run step start threeTimers).firings = [⟨1, 5⟩, ⟨2, 12⟩, ⟨1, 12⟩] := by decide

end TimerHistory

end Nnxt
