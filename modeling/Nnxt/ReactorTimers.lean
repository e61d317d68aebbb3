import Nnxt.Reactor
import Nnxt.Foundation.Transition

/-!
# The timers of the reactor

A timer of the reactor is returned once and is gone. Removal moves the last entry
into the gap and ids may repeat, so what is kept over a run of calls is the
multiset of the entries, not their order.
-/

namespace Nnxt.Polling

set_option autoImplicit false

open Transition

namespace TimerManager

/-- The entry that the next `poll_due` takes out. -/
def due (m : TimerManager) (nowNs : UInt64) : Option TimerEntry :=
  m.timers.find? fun timer => timer.dueNs ≤ nowNs

section Due
variable {m : TimerManager} {nowNs : UInt64} {entry : TimerEntry}

theorem due_eq_none_iff : m.due nowNs = none ↔ ∀ timer ∈ m.timers, nowNs < timer.dueNs := by
  rw [due, List.find?_eq_none]
  exact forall₂_congr fun timer _ => by simp

theorem dueNs_le_of_due (h : m.due nowNs = some entry) : entry.dueNs ≤ nowNs := by
  simpa using List.find?_some h

/-- A poll without a due entry changes nothing; any other one returns the id of its
entry and keeps the rest. -/
theorem pollDue_cases (m : TimerManager) (nowNs : UInt64) :
    (m.due nowNs = none ∧ m.pollDue nowNs = (m, none)) ∨
      ∃ entry, m.due nowNs = some entry ∧ (m.pollDue nowNs).2 = some entry.timerId ∧
        (entry :: (m.pollDue nowNs).1.timers).Perm m.timers := by
  cases hfound : m.timers.findIdx? fun timer => timer.dueNs ≤ nowNs with
  | none =>
    left
    rw [due, List.find?_eq_bind_findIdx?_getElem?, pollDue, hfound]
    exact ⟨rfl, rfl⟩
  | some idx =>
    right
    obtain ⟨hidx, -, -⟩ := List.findIdx?_eq_some_iff_getElem.mp hfound
    refine ⟨m.timers[idx], ?_, ?_, ?_⟩
    · rw [due, List.find?_eq_bind_findIdx?_getElem?, hfound, Option.bind_some,
        List.getElem?_eq_getElem hidx]
    · rw [pollDue, hfound]
      simp only [List.getElem?_eq_getElem hidx, Option.map_some]
    · rw [pollDue, hfound]
      exact ((swapRemove_perm hidx).cons _).trans (List.getElem_cons_eraseIdx_perm hidx)

end Due

end TimerManager

inductive TimerCall where
  | addTimer (timerId dueNs : UInt64)
  | pollDue (nowNs : UInt64)
  deriving DecidableEq, Repr

/-- A manager and its past: `answers` are the ids that were returned, `returned` the
entries behind them with the time of the poll. -/
structure TimerHistory where
  manager : TimerManager
  added : List TimerEntry
  returned : List (TimerEntry × UInt64)
  answers : List UInt64
  deriving DecidableEq, Repr

namespace TimerHistory

def start : TimerHistory := ⟨.default, [], [], []⟩

def step (h : TimerHistory) : TimerCall → TimerHistory
  | .addTimer timerId dueNs =>
    { h with
      manager := h.manager.addTimer timerId dueNs
      added := h.added ++ [⟨timerId, dueNs⟩] }
  | .pollDue nowNs =>
    { h with
      manager := (h.manager.pollDue nowNs).1
      returned := h.returned ++ ((h.manager.due nowNs).map (·, nowNs)).toList
      answers := h.answers ++ (h.manager.pollDue nowNs).2.toList }

def after (calls : List TimerCall) : TimerHistory := run step start calls

/-- What has been returned and what is stored make up what has been added. -/
structure Conserved (h : TimerHistory) : Prop where
  answers : h.answers = h.returned.map (·.1.timerId)
  entries : (h.returned.map Prod.fst ++ h.manager.timers).Perm h.added
  due : ∀ entry nowNs, (entry, nowNs) ∈ h.returned → entry.dueNs ≤ nowNs

section Runs
variable {h : TimerHistory}

theorem Conserved.addTimer (hc : h.Conserved) (timerId dueNs : UInt64) :
    (h.step (.addTimer timerId dueNs)).Conserved where
  answers := hc.answers
  entries := by
    have hadded := hc.entries.append_right [⟨timerId, dueNs⟩]
    rw [List.append_assoc] at hadded
    exact hadded
  due := hc.due

theorem Conserved.pollDue (hc : h.Conserved) (nowNs : UInt64) :
    (h.step (.pollDue nowNs)).Conserved := by
  rcases h.manager.pollDue_cases nowNs with ⟨hdue, hpoll⟩ | ⟨entry, hdue, hanswer, hrest⟩
  · have hsame : h.step (.pollDue nowNs) = h := by
      simp [step, hdue, hpoll]
    rw [hsame]
    exact hc
  · have hreturned : (h.step (.pollDue nowNs)).returned = h.returned ++ [(entry, nowNs)] := by
      simp [step, hdue]
    refine ⟨?_, ?_, ?_⟩
    · rw [hreturned, List.map_append, ← hc.answers]
      simp [step, hanswer]
    · rw [hreturned, List.map_append, List.append_assoc]
      exact (hrest.append_left _).trans hc.entries
    · intro other now hmem
      rw [hreturned] at hmem
      rcases List.mem_append.mp hmem with hmem | hmem
      · exact hc.due other now hmem
      · cases List.mem_singleton.mp hmem
        exact TimerManager.dueNs_le_of_due hdue

theorem Conserved.step (hc : h.Conserved) (call : TimerCall) : (h.step call).Conserved := by
  cases call with
  | addTimer timerId dueNs => exact hc.addTimer timerId dueNs
  | pollDue nowNs => exact hc.pollDue nowNs

theorem conserved_after (calls : List TimerCall) : (after calls).Conserved := by
  have hstart : start.Conserved := ⟨rfl, List.Perm.refl _, fun _ _ h => by cases h⟩
  exact always_of_step (fun _ call hc => hc.step call) hstart calls calls (List.prefix_refl calls)

end Runs

/-- After every run of calls the entries returned so far and those still stored are
the entries added, each returned one was due, no entry was returned more often than
it was added, and a poll answers `none` only when nothing stored is due. -/
theorem one_shot_and_conserved (calls : List TimerCall) :
    (after calls).answers = (after calls).returned.map (·.1.timerId) ∧
    ((after calls).returned.map Prod.fst ++ (after calls).manager.timers).Perm
      (after calls).added ∧
    (∀ entry, ((after calls).returned.map Prod.fst).count entry ≤
      (after calls).added.count entry) ∧
    (∀ entry nowNs, (entry, nowNs) ∈ (after calls).returned → entry.dueNs ≤ nowNs) ∧
    ∀ nowNs, ((after calls).manager.pollDue nowNs).2 = none ↔
      ∀ timer ∈ (after calls).manager.timers, nowNs < timer.dueNs := by
  have hc := conserved_after calls
  refine ⟨hc.answers, hc.entries, ?_, hc.due, ?_⟩
  · intro entry
    rw [← hc.entries.count_eq entry, List.count_append]
    exact Nat.le_add_right _ _
  · intro nowNs
    rw [← TimerManager.due_eq_none_iff]
    rcases (after calls).manager.pollDue_cases nowNs with ⟨hdue, hpoll⟩ | ⟨entry, hdue, hanswer, _⟩
    · exact iff_of_true (congrArg Prod.snd hpoll) hdue
    · rw [hdue, hanswer]
      simp

end TimerHistory

section Reactor
variable {T E : Type}

inductive ReactorCall (E : Type) where
  | poll (input : PollInput E)
  | addTimer (timerId dueNs : UInt64)

def timerIds : Option (Event T E) → List UInt64
  | some (.timer timerId) => [timerId]
  | _ => []

/-- A reactor in use, with the ids of the timer events it has answered with. -/
def callReactor (s : Reactor T E × List UInt64) : ReactorCall E → Reactor T E × List UInt64
  | .poll input => ((s.1.step input).1, s.2 ++ timerIds (s.1.step input).2)
  | .addTimer timerId dueNs => (s.1.addTimer timerId dueNs, s.2)

/-- A poll leaves the timers alone, or makes one `poll_due` and answers with its result. -/
inductive TimersPolled (r : Reactor T E) (nowNs : UInt64) (after : Reactor T E × Option (Event T E)) :
    Prop where
  | untouched (timers : after.1.timers = r.timers) (silent : timerIds after.2 = [])
  | polled (timers : after.1.timers = (r.timers.pollDue nowNs).1)
      (answer : timerIds after.2 = (r.timers.pollDue nowNs).2.toList)

theorem timersPolled_pollCounted (r : Reactor T E) (nowNs : UInt64) :
    TimersPolled r nowNs (r.pollCounted nowNs) := by
  unfold Reactor.pollCounted
  dsimp only
  split
  · split
    · exact .untouched rfl rfl
    · refine .polled rfl ?_
      rw [Reactor.pollTimers]
      cases (r.timers.pollDue nowNs).2 <;> rfl
  · exact .untouched rfl rfl

theorem timersPolled_pollChannels (r : Reactor T E) (nowNs : UInt64) :
    TimersPolled r nowNs (r.pollChannels nowNs) := by
  unfold Reactor.pollChannels
  split
  · exact .untouched rfl rfl
  · exact .untouched rfl rfl
  · exact timersPolled_pollCounted r nowNs

theorem timerIds_poll (source : RapidSource) (queues : List (RingSystem T)) :
    timerIds (source.poll queues : List (RingSystem T) × Option (Event T E)).2 = [] := by
  unfold RapidSource.poll
  split
  · rfl
  · split
    · rfl
    · rename_i queue _ _ slot _
      rcases queue.ring.tryRead slot with ⟨ring, _ | seq⟩
      · rfl
      · rfl

theorem timerIds_pollSources (queues : List (RingSystem T)) (sources : List RapidSource) :
    timerIds (pollSources queues sources : List (RingSystem T) × Option (Event T E)).2 = [] := by
  induction sources generalizing queues with
  | nil => rfl
  | cons source sources ih =>
    have hsource := timerIds_poll (E := E) source queues
    rw [pollSources]
    split
    · rename_i hpoll
      rw [hpoll] at hsource
      exact hsource
    · exact ih _

theorem timersPolled_step (r : Reactor T E) (input : PollInput E) :
    TimersPolled r input.nowNs (r.step input) := by
  have harrive : (r.arrive input).timers = r.timers := by
    unfold Reactor.arrive
    dsimp only
    split <;> rfl
  have hlistener : ((r.arrive input).ensureControlListener input.spawned).timers = r.timers := by
    unfold Reactor.ensureControlListener
    split
    · exact harrive
    · split <;> exact harrive
  unfold Reactor.step Reactor.poll
  split
  · exact .untouched harrive rfl
  · have hsilent := timerIds_pollSources (E := E)
      ((r.arrive input).ensureControlListener input.spawned).queues
      ((r.arrive input).ensureControlListener input.spawned).rapidSources
    dsimp only
    split
    · rename_i hpoll
      rw [hpoll] at hsilent
      exact .untouched hlistener hsilent
    · rename_i queues _
      cases timersPolled_pollChannels
        ({ (r.arrive input).ensureControlListener input.spawned with queues := queues } : Reactor T E)
        input.nowNs with
      | untouched timers silent => exact .untouched (timers.trans hlistener) silent
      | polled timers answer =>
        refine .polled (timers.trans ?_) (answer.trans ?_)
        · exact congrArg (fun m => (m.pollDue input.nowNs).1) hlistener
        · exact congrArg (fun m => (m.pollDue input.nowNs).2.toList) hlistener

/-- What a reactor does with its timers is a run of calls on their manager. -/
theorem exists_timer_calls (r : Reactor T E) (hnew : r.timers = .default)
    (calls : List (ReactorCall E)) :
    ∃ timerCalls, (TimerHistory.after timerCalls).manager =
        (run callReactor (r, []) calls).1.timers ∧
      (TimerHistory.after timerCalls).answers = (run callReactor (r, []) calls).2 := by
  induction calls using List.reverseRecOn with
  | nil => exact ⟨[], hnew.symm, rfl⟩
  | append_singleton calls call ih =>
    obtain ⟨timerCalls, hmanager, hanswers⟩ := ih
    rw [run_append]
    generalize run callReactor (r, []) calls = s at hmanager hanswers ⊢
    have happend : ∀ timerCall, TimerHistory.after (timerCalls ++ [timerCall]) =
        (TimerHistory.after timerCalls).step timerCall :=
      fun timerCall => run_append _ _ _ _
    cases call with
    | addTimer timerId dueNs =>
      refine ⟨timerCalls ++ [.addTimer timerId dueNs], ?_, ?_⟩
      · rw [happend]
        exact congrArg (TimerManager.addTimer · timerId dueNs) hmanager
      · rw [happend]
        exact hanswers
    | poll input =>
      cases timersPolled_step s.1 input with
      | untouched timers silent =>
        refine ⟨timerCalls, hmanager.trans timers.symm, ?_⟩
        rw [run_cons, run_nil, callReactor, silent, List.append_nil]
        exact hanswers
      | polled timers answer =>
        refine ⟨timerCalls ++ [.pollDue input.nowNs], ?_, ?_⟩
        · rw [happend, TimerHistory.step, hmanager]
          exact timers.symm
        · rw [happend, TimerHistory.step, hmanager, hanswers]
          rw [run_cons, run_nil, callReactor, answer]

end Reactor

end Nnxt.Polling
