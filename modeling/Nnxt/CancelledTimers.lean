import Nnxt.TimerNotes
import Nnxt.Foundation.Transition

/-!
# Cancelled timers

A tick collects the due timers first and calls the strategy for each of them
afterwards, so a cancel made on the way does not reach a timer that is already
collected. Everywhere else a cancelled timer is gone for good.
-/

namespace Nnxt

set_option autoImplicit false

open Transition

namespace StrategyRunner

def eventNotes (r : StrategyRunner) (event : Event) (reaction : Reaction) : List TimerNote :=
  match event with
  | .shutdown => r.timers.notes reaction.contextNs reaction.calls
  | event => r.timers.notes reaction.nowNs (r.directCalls event reaction) ++
      (r.timers.afterCalls reaction.nowNs (r.directCalls event reaction)).tickNotes
        reaction.tickNs reaction.timerCalls

end StrategyRunner

/-- A session with what its strategy has learned of the timers. -/
structure NotedSession where
  session : Session
  notes : List TimerNote

namespace NotedSession

def launched (config : RunnerConfig) (registered : Except RunnerError Unit)
    (reaction : Reaction) : NotedSession :=
  ⟨Session.launched config registered reaction,
   TimerManager.default.notes reaction.contextNs (Session.startCalls config registered reaction)⟩

def turn (s : NotedSession) (polled : Option (Event × Reaction)) : NotedSession :=
  ⟨s.session.turn polled,
   match polled with
   | none => s.notes
   | some (event, reaction) =>
     if s.session.running then s.notes ++ s.session.runner.eventNotes event reaction else s.notes⟩

/-- The timers when the tick of an event begins. -/
def atTick (s : NotedSession) (event : Event) (reaction : Reaction) : TimerManager :=
  s.session.runner.timers.afterCalls reaction.nowNs (s.session.runner.directCalls event reaction)

/-- A turn that ticks spares the timers that wait: none is cancelled by an earlier callback. -/
def SparesWaiting (s : NotedSession) : Option (Event × Reaction) → Prop
  | none => True
  | some (.shutdown, _) => True
  | some (event, reaction) => s.session.running →
      TimerManager.SparesWaiting reaction.tickNs ((s.atTick event reaction).dueTimers reaction.tickNs).1
        ((s.atTick event reaction).dueTimers reaction.tickNs).2 reaction.timerCalls

/-- No timer that is due carries the id of one cancelled before. -/
def NoneComesBack (s : NotedSession) : Option (Event × Reaction) → Prop
  | none => True
  | some (.shutdown, _) => True
  | some (event, reaction) => s.session.running →
      ∀ due ∈ ((s.atTick event reaction).dueTimers reaction.tickNs).2,
        .cancelled due.timerId ∉ s.notes ++
          s.session.runner.timers.notes reaction.nowNs (s.session.runner.directCalls event reaction)

instance : (s : NotedSession) → (polled : Option (Event × Reaction)) →
    Decidable (s.SparesWaiting polled)
  | _, none => .isTrue trivial
  | _, some (.shutdown, _) => .isTrue trivial
  | s, some (.data _ _, _) => inferInstanceAs (Decidable (s.session.running → _))
  | s, some (.control, _) => inferInstanceAs (Decidable (s.session.running → _))
  | s, some (.external, _) => inferInstanceAs (Decidable (s.session.running → _))
  | s, some (.timer, _) => inferInstanceAs (Decidable (s.session.running → _))

end NotedSession

namespace NotedSession

section Turns
variable {s : NotedSession} {event : Event} {reaction : Reaction}

theorem notes_turn_stopped (h : s.session.running = false) (polled : Option (Event × Reaction)) :
    (s.turn polled).notes = s.notes := by
  cases polled with
  | none => rfl
  | some input => simp only [turn, h, Bool.false_eq_true, if_false]

theorem notes_turn_shutdown (h : s.session.running = true) :
    (s.turn (some (.shutdown, reaction))).notes =
      s.notes ++ s.session.runner.timers.notes reaction.contextNs reaction.calls := by
  simp only [turn, h, if_true]
  rfl

theorem notes_turn_ticking (h : s.session.running = true) (hevent : event ≠ .shutdown) :
    (s.turn (some (event, reaction))).notes =
      (s.notes ++ s.session.runner.timers.notes reaction.nowNs
        (s.session.runner.directCalls event reaction)) ++
          (s.atTick event reaction).tickNotes reaction.tickNs reaction.timerCalls := by
  simp only [turn, h, if_true]
  cases event with
  | shutdown => exact absurd rfl hevent
  | data sourceId payload => exact (List.append_assoc _ _ _).symm
  | control => exact (List.append_assoc _ _ _).symm
  | external => exact (List.append_assoc _ _ _).symm
  | timer => exact (List.append_assoc _ _ _).symm

theorem timers_turn_ticking (h : s.session.running = true) (hevent : event ≠ .shutdown) :
    (s.turn (some (event, reaction))).session.runner.timers =
      (s.atTick event reaction).afterTick reaction.tickNs reaction.timerCalls := by
  rw [turn, Session.timers_turn_some, if_pos h]
  cases event with
  | shutdown => exact absurd rfl hevent
  | data sourceId payload => rfl
  | control => rfl
  | external => rfl
  | timer => rfl

theorem sparesWaiting_ticking (h : s.session.running = true) (hevent : event ≠ .shutdown) :
    s.SparesWaiting (some (event, reaction)) ↔
      TimerManager.SparesWaiting reaction.tickNs
        ((s.atTick event reaction).dueTimers reaction.tickNs).1
        ((s.atTick event reaction).dueTimers reaction.tickNs).2 reaction.timerCalls := by
  cases event with
  | shutdown => exact absurd rfl hevent
  | data sourceId payload => exact forall_prop_of_true h
  | control => exact forall_prop_of_true h
  | external => exact forall_prop_of_true h
  | timer => exact forall_prop_of_true h

theorem noneComesBack_ticking (h : s.session.running = true) (hevent : event ≠ .shutdown) :
    s.NoneComesBack (some (event, reaction)) ↔
      ∀ due ∈ ((s.atTick event reaction).dueTimers reaction.tickNs).2,
        .cancelled due.timerId ∉ s.notes ++ s.session.runner.timers.notes reaction.nowNs
          (s.session.runner.directCalls event reaction) := by
  cases event with
  | shutdown => exact absurd rfl hevent
  | data sourceId payload => exact forall_prop_of_true h
  | control => exact forall_prop_of_true h
  | external => exact forall_prop_of_true h
  | timer => exact forall_prop_of_true h

/-- A turn that does not tick calls no `on_timer`, and neither guard asks anything of it. -/
theorem turn_cases (s : NotedSession) (polled : Option (Event × Reaction)) :
    (∃ event reaction, polled = some (event, reaction) ∧ s.session.running = true ∧
      event ≠ .shutdown) ∨
    s.SparesWaiting polled ∧ s.NoneComesBack polled ∧
      (s.turn polled).notes = s.notes ∧
        (s.turn polled).session.runner.timers = s.session.runner.timers ∨
    ∃ reaction, polled = some (.shutdown, reaction) ∧ s.session.running = true := by
  cases polled with
  | none => exact Or.inr (Or.inl ⟨trivial, trivial, rfl, rfl⟩)
  | some input =>
    obtain ⟨event, reaction⟩ := input
    cases hrunning : s.session.running with
    | false =>
      have hnot : ¬ s.session.running = true := by simp [hrunning]
      refine Or.inr (Or.inl ⟨?_, ?_, notes_turn_stopped hrunning _, ?_⟩)
      · cases event <;> first | trivial | exact fun h => absurd h hnot
      · cases event <;> first | trivial | exact fun h => absurd h hnot
      · rw [turn, Session.timers_turn_some, if_neg hnot]
    | true =>
      by_cases hevent : event = .shutdown
      · exact Or.inr (Or.inr ⟨reaction, by rw [hevent], rfl⟩)
      · exact Or.inl ⟨event, reaction, rfl, rfl, hevent⟩

theorem silent_turn_iff (s : NotedSession) (polled : Option (Event × Reaction)) :
    Silent (s.turn polled).notes ↔
      Silent s.notes ∧ s.SparesWaiting polled ∧ s.NoneComesBack polled := by
  rcases turn_cases s polled with ⟨event, reaction, rfl, hrunning, hevent⟩ |
    ⟨hspares, hback, hnotes, _⟩ | ⟨reaction, rfl, hrunning⟩
  · rw [notes_turn_ticking hrunning hevent, TimerManager.silent_append_tickNotes_iff,
      TimerManager.silent_append_notes_iff, sparesWaiting_ticking hrunning hevent,
      noneComesBack_ticking hrunning hevent]
  · rw [hnotes]
    exact (and_iff_left ⟨hspares, hback⟩).symm
  · rw [notes_turn_shutdown hrunning, TimerManager.silent_append_notes_iff]
    exact (and_iff_left ⟨trivial, trivial⟩).symm

/-- The timers of the session are clean with respect to what was learned. -/
def Clean (s : NotedSession) : Prop := s.session.runner.timers.Clean s.notes

theorem setCount_turn (s : NotedSession) (polled : Option (Event × Reaction)) :
    setCount s.notes ≤ setCount (s.turn polled).notes := by
  rcases turn_cases s polled with ⟨event, reaction, rfl, hrunning, hevent⟩ |
    ⟨_, _, hnotes, _⟩ | ⟨reaction, rfl, hrunning⟩
  · rw [notes_turn_ticking hrunning hevent, setCount_append, setCount_append]
    omega
  · rw [hnotes]
  · rw [notes_turn_shutdown hrunning, setCount_append]
    omega

theorem Clean.atTick (h : s.Clean)
    (hroom : setCount (s.notes ++ s.session.runner.timers.notes reaction.nowNs
      (s.session.runner.directCalls event reaction)) < 2 ^ 64) :
    (s.atTick event reaction).Clean (s.notes ++ s.session.runner.timers.notes reaction.nowNs
      (s.session.runner.directCalls event reaction)) :=
  TimerManager.Clean.afterCalls h hroom

theorem Clean.turn (h : s.Clean) {polled : Option (Event × Reaction)}
    (hroom : setCount (s.turn polled).notes < 2 ^ 64) : (s.turn polled).Clean := by
  rcases turn_cases s polled with ⟨event, reaction, rfl, hrunning, hevent⟩ |
    ⟨_, _, hnotes, htimers⟩ | ⟨reaction, rfl, hrunning⟩
  · rw [notes_turn_ticking hrunning hevent] at hroom
    have hdirect := setCount_append ▸ hroom
    rw [Clean, notes_turn_ticking hrunning hevent, timers_turn_ticking hrunning hevent]
    exact (h.atTick (by omega)).afterTick hroom
  · rw [Clean, hnotes, htimers]
    exact h
  · rw [notes_turn_shutdown hrunning] at hroom
    have htimers := Session.timers_turn_some s.session .shutdown reaction
    rw [if_pos hrunning] at htimers
    rw [Clean, notes_turn_shutdown hrunning]
    exact htimers ▸ TimerManager.Clean.afterCalls h hroom

theorem Clean.noneComesBack (h : s.Clean) {polled : Option (Event × Reaction)}
    (hroom : setCount (s.turn polled).notes < 2 ^ 64) : s.NoneComesBack polled := by
  rcases turn_cases s polled with ⟨event, reaction, rfl, hrunning, hevent⟩ |
    ⟨_, hback, _⟩ | ⟨reaction, rfl, _⟩
  · rw [notes_turn_ticking hrunning hevent] at hroom
    have hdirect := setCount_append ▸ hroom
    rw [noneComesBack_ticking hrunning hevent]
    exact fun due hdue => (h.atTick (by omega)).not_cancelled_of_due hdue
  · exact hback
  · trivial

theorem clean_launched (config : RunnerConfig) (registered : Except RunnerError Unit)
    (reaction : Reaction)
    (hroom : setCount (launched config registered reaction).notes < 2 ^ 64) :
    (launched config registered reaction).Clean := by
  have hstart : TimerManager.default.Clean [] :=
    ⟨TimerManager.issued_default, fun _ h => absurd h List.not_mem_nil,
      fun _ h => absurd h List.not_mem_nil⟩
  have htimers := Session.timers_launched config registered reaction
  have hclean := @TimerManager.Clean.afterCalls reaction.contextNs TimerManager.default [] hstart
    (Session.startCalls config registered reaction) hroom
  rw [← htimers] at hclean
  exact hclean

end Turns

/-- A run calls no `on_timer` for a cancelled timer exactly when no tick cancels
a timer that waits and no due timer carries a cancelled id; before the ids run
out, after `2 ^ 64` timers, the former alone decides. -/
theorem cancelled_silent_iff (config : RunnerConfig) (registered : Except RunnerError Unit)
    (reaction : Reaction) (is : List (Option (Event × Reaction))) :
    (Silent (run turn (launched config registered reaction) is).notes ↔
      Guarded turn (fun s polled => s.SparesWaiting polled ∧ s.NoneComesBack polled)
        (launched config registered reaction) is) ∧
    (setCount (run turn (launched config registered reaction) is).notes < 2 ^ 64 →
      (Silent (run turn (launched config registered reaction) is).notes ↔
        Guarded turn SparesWaiting (launched config registered reaction) is)) := by
  have hstart : Silent (launched config registered reaction).notes :=
    TimerManager.silent_notes TimerManager.default _
  constructor
  · have hdecides := @run_iff_guarded_within NotedSession _ turn (fun _ => True)
      (fun s => Silent s.notes) (fun _ => True)
      (fun s polled => s.SparesWaiting polled ∧ s.NoneComesBack polled) (fun _ _ h => h)
      (fun _ _ h _ => h) (fun s polled _ _ => silent_turn_iff s polled)
      (launched config registered reaction) is trivial trivial
    rw [hdecides]
    exact and_iff_right hstart
  · intro hroom
    have hback : ∀ (s : NotedSession) (polled : Option (Event × Reaction)),
        setCount (s.turn polled).notes < 2 ^ 64 → setCount s.notes < 2 ^ 64 :=
      fun s polled hlt => Nat.lt_of_le_of_lt (setCount_turn s polled) hlt
    have hdecides : ∀ (s : NotedSession) (polled : Option (Event × Reaction)), s.Clean →
        setCount (s.turn polled).notes < 2 ^ 64 →
        (Silent (s.turn polled).notes ↔ Silent s.notes ∧ s.SparesWaiting polled) := by
      intro s polled hclean hlt
      rw [silent_turn_iff]
      exact and_congr_right fun _ => and_iff_left (hclean.noneComesBack hlt)
    have hfirst := @within_of_run NotedSession _ turn (fun s => setCount s.notes < 2 ^ 64) hback
      (launched config registered reaction) is hroom
    have hclean := clean_launched config registered reaction hfirst
    have hiff := @run_iff_guarded_within NotedSession _ turn Clean (fun s => Silent s.notes)
      (fun s => setCount s.notes < 2 ^ 64) SparesWaiting hback
      (fun _ _ hclean hlt => hclean.turn hlt) hdecides
      (launched config registered reaction) is hclean hroom
    rw [hiff]
    exact and_iff_right hstart

section Samples

def tickAt (nowNs : UInt64) (calls : List (List ContextCall)) : Option (Event × Reaction) :=
  some (.control, ⟨.alone, nowNs, nowNs, [], nowNs, calls⟩)

/-- `on_start` sets two timers. -/
def startsTwo (first second : UInt64) : NotedSession :=
  launched ⟨none, 0, false, "strategy"⟩ (.ok ())
    ⟨.alone, 0, 0, [.setTimer first, .setTimer second], 0, []⟩

/-- Cancelled in the tick before the one it would fire in, the second timer stays silent. -/
theorem cancelled_silent_before_due :
    Silent (run turn (startsTwo 10 30) [tickAt 20 [[.cancelTimer 1]], tickAt 40 []]).notes :=
  ((cancelled_silent_iff ⟨none, 0, false, "strategy"⟩ (.ok ())
    ⟨.alone, 0, 0, [.setTimer 10, .setTimer 30], 0, []⟩
    [tickAt 20 [[.cancelTimer 1]], tickAt 40 []]).2 (by decide)).mpr (by decide)

/-- Cancelled by the callback before its own in one tick, the second timer fires. -/
theorem cancelled_timer_fires :
    ¬ ∀ (config : RunnerConfig) (registered : Except RunnerError Unit) (reaction : Reaction)
      (is : List (Option (Event × Reaction))),
      Silent (run turn (launched config registered reaction) is).notes := by
  intro h
  have hsilent := h ⟨none, 0, false, "strategy"⟩ (.ok ())
    ⟨.alone, 0, 0, [.setTimer 10, .setTimer 10], 0, []⟩ [tickAt 20 [[.cancelTimer 1]]]
  have hnotes : (run turn (startsTwo 10 10) [tickAt 20 [[.cancelTimer 1]]]).notes =
      [.set 0, .set 1, .onTimer ⟨0, 20⟩, .cancelled 1] ++ [.onTimer ⟨1, 20⟩] := by decide
  change Silent (run turn (startsTwo 10 10) [tickAt 20 [[.cancelTimer 1]]]).notes at hsilent
  rw [hnotes, silent_append_iff] at hsilent
  exact hsilent.2.2 ⟨1, 20⟩ List.mem_cons_self (by decide)

end Samples

end NotedSession

end Nnxt
