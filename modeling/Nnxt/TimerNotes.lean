import Nnxt.EventLoop

/-!
# What a strategy learns of its timers

The record of a callback and of a walk over collected events, from the timers
and the calls alone. While ids do not run out, a cancelled id is not live again.
-/

namespace Nnxt

set_option autoImplicit false

open KeyedList

/-- What a strategy learns of its timers: the id of a new one, a cancel that
returned `true`, a call of `on_timer`. -/
inductive TimerNote where
  | set (timerId : UInt64)
  | cancelled (timerId : UInt64)
  | onTimer (event : TimerEvent)
  deriving DecidableEq, Repr

/-- No call of `on_timer` for a timer after its cancel. -/
def Silent (notes : List TimerNote) : Prop :=
  notes.Pairwise fun earlier later => ∀ event, later = .onTimer event →
    earlier ≠ .cancelled event.timerId

def setCount (notes : List TimerNote) : Nat := notes.countP fun
  | .set _ => true
  | _ => false

namespace TimerManager

def note (m : TimerManager) : ContextCall → List TimerNote
  | .setTimer _ => [.set m.nextId]
  | .cancelTimer timerId => if (m.cancelTimer timerId).2 then [.cancelled timerId] else []
  | _ => []

def notes (nowNs : UInt64) : TimerManager → List ContextCall → List TimerNote
  | _, [] => []
  | m, call :: calls => m.note call ++ notes nowNs (m.perform nowNs call) calls

def walkNotes (nowNs : UInt64) :
    TimerManager → List TimerEvent → List (List ContextCall) → List TimerNote
  | _, [], _ => []
  | m, event :: events, calls =>
    .onTimer event :: (notes nowNs m (calls.headD []) ++
      walkNotes nowNs (m.afterCalls nowNs (calls.headD [])) events calls.tail)

def tickNotes (m : TimerManager) (nowNs : UInt64) (calls : List (List ContextCall)) :
    List TimerNote :=
  walkNotes nowNs (m.dueTimers nowNs).1 (m.dueTimers nowNs).2 calls

/-- No callback of the walk cancels a timer whose event is still waiting. -/
def SparesWaiting (nowNs : UInt64) :
    TimerManager → List TimerEvent → List (List ContextCall) → Prop
  | _, [], _ => True
  | m, _ :: events, calls =>
    (∀ event ∈ events, .cancelled event.timerId ∉ notes nowNs m (calls.headD [])) ∧
      SparesWaiting nowNs (m.afterCalls nowNs (calls.headD [])) events calls.tail

instance decidableSparesWaiting (nowNs : UInt64) : (m : TimerManager) →
    (events : List TimerEvent) → (calls : List (List ContextCall)) →
    Decidable (SparesWaiting nowNs m events calls)
  | _, [], _ => .isTrue trivial
  | m, _ :: events, calls =>
    have := decidableSparesWaiting nowNs (m.afterCalls nowNs (calls.headD [])) events calls.tail
    inferInstanceAs (Decidable ((∀ event ∈ events, _) ∧ _))

end TimerManager

section Notes
variable {notes later : List TimerNote} {nowNs : UInt64}

theorem silent_append_iff : Silent (notes ++ later) ↔
    Silent notes ∧ Silent later ∧
      ∀ event, .onTimer event ∈ later → .cancelled event.timerId ∉ notes := by
  rw [Silent, List.pairwise_append]
  refine and_congr_right fun _ => and_congr_right fun _ => ?_
  constructor
  · intro h event hevent hcancelled
    exact h _ hcancelled _ hevent event rfl rfl
  · rintro h earlier hearlier _ hevent event rfl rfl
    exact h event hevent hearlier

theorem silent_of_no_onTimer (h : ∀ event, .onTimer event ∉ notes) : Silent notes := by
  refine List.pairwise_of_forall_mem_list ?_
  rintro earlier _ _ hlater event rfl
  exact absurd hlater (h event)

theorem setCount_append : setCount (notes ++ later) = setCount notes + setCount later :=
  List.countP_append

end Notes

namespace TimerManager
variable {nowNs : UInt64}

theorem onTimer_not_mem_notes (m : TimerManager) (calls : List ContextCall) (event : TimerEvent) :
    .onTimer event ∉ m.notes nowNs calls := by
  induction calls generalizing m with
  | nil => exact List.not_mem_nil
  | cons call calls ih =>
    rw [notes, List.mem_append]
    rintro (hfirst | hrest)
    · cases call with
      | setTimer intervalNs =>
        have heq := List.mem_singleton.mp hfirst
        cases heq
      | cancelTimer timerId =>
        simp only [note] at hfirst
        split at hfirst
        · have heq := List.mem_singleton.mp hfirst
          cases heq
        · cases hfirst
      | submitIntent intent => cases hfirst
      | subscribeQuote source instrumentId => cases hfirst
      | connectTrade source => cases hfirst
      | cancelAll instrumentId => cases hfirst
    · exact ih _ hrest

theorem silent_notes (m : TimerManager) (calls : List ContextCall) : Silent (m.notes nowNs calls) :=
  silent_of_no_onTimer (onTimer_not_mem_notes m calls)

/-- The walk calls `on_timer` for the collected events, whatever the callbacks do. -/
theorem onTimer_mem_walkNotes (m : TimerManager) (events : List TimerEvent)
    (calls : List (List ContextCall)) (event : TimerEvent) :
    .onTimer event ∈ walkNotes nowNs m events calls ↔ event ∈ events := by
  induction events generalizing m calls with
  | nil => exact iff_of_false List.not_mem_nil List.not_mem_nil
  | cons first events ih =>
    rw [walkNotes, List.mem_cons, List.mem_append, ih, List.mem_cons]
    constructor
    · rintro (heq | hnotes | hmem)
      · exact Or.inl (TimerNote.onTimer.inj heq)
      · exact absurd hnotes (onTimer_not_mem_notes m _ event)
      · exact Or.inr hmem
    · rintro (rfl | hmem)
      · exact Or.inl rfl
      · exact Or.inr (Or.inr hmem)

theorem silent_walkNotes_iff (m : TimerManager) (events : List TimerEvent)
    (calls : List (List ContextCall)) :
    Silent (walkNotes nowNs m events calls) ↔ SparesWaiting nowNs m events calls := by
  induction events generalizing m calls with
  | nil => exact iff_of_true List.Pairwise.nil trivial
  | cons first events ih =>
    have hfirst : walkNotes nowNs m (first :: events) calls = [.onTimer first] ++
        (notes nowNs m (calls.headD []) ++
          walkNotes nowNs (m.afterCalls nowNs (calls.headD [])) events calls.tail) := rfl
    have hcross : ∀ event, TimerNote.onTimer event ∈ notes nowNs m (calls.headD []) ++
        walkNotes nowNs (m.afterCalls nowNs (calls.headD [])) events calls.tail →
        .cancelled event.timerId ∉ [TimerNote.onTimer first] := by
      intro event _ hmem
      have heq := List.mem_singleton.mp hmem
      cases heq
    rw [hfirst, silent_append_iff, silent_append_iff, ih, SparesWaiting]
    simp only [onTimer_mem_walkNotes]
    constructor
    · rintro ⟨_, ⟨_, hrest, hnow⟩, _⟩
      exact ⟨hnow, hrest⟩
    · rintro ⟨hnow, hrest⟩
      exact ⟨List.pairwise_singleton _ _, ⟨silent_notes m _, hrest, hnow⟩, hcross⟩

theorem silent_append_notes_iff (notes : List TimerNote) (m : TimerManager)
    (calls : List ContextCall) : Silent (notes ++ m.notes nowNs calls) ↔ Silent notes := by
  rw [silent_append_iff]
  refine and_iff_left ⟨silent_notes m calls, fun event hevent => ?_⟩
  exact absurd hevent (onTimer_not_mem_notes m calls event)

theorem silent_append_tickNotes_iff (notes : List TimerNote) (m : TimerManager)
    (calls : List (List ContextCall)) :
    Silent (notes ++ m.tickNotes nowNs calls) ↔
      Silent notes ∧ SparesWaiting nowNs (m.dueTimers nowNs).1 (m.dueTimers nowNs).2 calls ∧
        ∀ event ∈ (m.dueTimers nowNs).2, .cancelled event.timerId ∉ notes := by
  rw [silent_append_iff, tickNotes, silent_walkNotes_iff]
  simp only [onTimer_mem_walkNotes]

/-- The live timers carry ids that have been given out, and none that was cancelled. -/
structure Clean (m : TimerManager) (notes : List TimerNote) : Prop where
  issued : m.Issued (setCount notes)
  gone : ∀ timerId, .cancelled timerId ∈ notes → m.schedule timerId = none
  below : ∀ timerId, .cancelled timerId ∈ notes → timerId.toNat < setCount notes

section Clean
variable {m : TimerManager} {notes : List TimerNote}

theorem Clean.setTimer (h : m.Clean notes) (hroom : setCount notes < 2 ^ 64)
    (intervalNs : UInt64) :
    (m.setTimer intervalNs nowNs).1.Clean (notes ++ [.set m.nextId]) := by
  have hcount : setCount (notes ++ [.set m.nextId]) = setCount notes + 1 := setCount_append
  have hold : ∀ timerId, .cancelled timerId ∈ notes ++ [.set m.nextId] →
      TimerNote.cancelled timerId ∈ notes := by
    intro timerId hmem
    rcases List.mem_append.mp hmem with hmem | hmem
    · exact hmem
    · have heq := List.mem_singleton.mp hmem
      cases heq
  refine ⟨hcount ▸ h.issued.setTimer hroom intervalNs nowNs, ?_, ?_⟩
  · intro timerId hmem
    have hlt := h.below timerId (hold timerId hmem)
    have hne : timerId ≠ m.nextId := by
      intro heq
      rw [heq, h.issued.toNat_nextId hroom] at hlt
      omega
    rw [schedule_setTimer h.issued hroom, Function.update_of_ne hne]
    exact h.gone timerId (hold timerId hmem)
  · intro timerId hmem
    rw [hcount]
    exact Nat.lt_succ_of_lt (h.below timerId (hold timerId hmem))

theorem Clean.cancelTimer (h : m.Clean notes) (timerId : UInt64) :
    (m.cancelTimer timerId).1.Clean (notes ++ m.note (.cancelTimer timerId)) := by
  have hnote : m.note (.cancelTimer timerId) =
      if (m.schedule timerId).isSome then [.cancelled timerId] else [] := by
    rw [note, snd_cancelTimer]
  have hcount : setCount (notes ++ m.note (.cancelTimer timerId)) = setCount notes := by
    rw [setCount_append, hnote]
    split <;> rfl
  have hmem : ∀ other, .cancelled other ∈ notes ++ m.note (.cancelTimer timerId) →
      .cancelled other ∈ notes ∨ other = timerId ∧ (m.schedule timerId).isSome := by
    intro other hmem
    rw [hnote] at hmem
    rcases List.mem_append.mp hmem with hmem | hmem
    · exact Or.inl hmem
    · split at hmem
      · rename_i hlive
        exact Or.inr ⟨TimerNote.cancelled.inj (List.mem_singleton.mp hmem), hlive⟩
      · cases hmem
  refine ⟨hcount ▸ h.issued.cancelTimer timerId, ?_, ?_⟩
  · intro other hother
    rw [schedule_cancelTimer h.issued]
    by_cases heq : other = timerId
    · rw [heq, Function.update_self]
    · rw [Function.update_of_ne heq]
      exact h.gone other ((hmem other hother).resolve_right fun hnew => heq hnew.1)
  · intro other hother
    rw [hcount]
    rcases hmem other hother with hold | ⟨rfl, hlive⟩
    · exact h.below other hold
    · obtain ⟨state, hstate⟩ := Option.isSome_iff_exists.mp hlive
      have hlt := h.issued.below state (mem_of_entry hstate)
      rwa [key_of_entry hstate] at hlt

theorem Clean.perform (h : m.Clean notes) {call : ContextCall}
    (hroom : setCount (notes ++ m.note call) < 2 ^ 64) :
    (m.perform nowNs call).Clean (notes ++ m.note call) := by
  cases call with
  | setTimer intervalNs =>
    have hcount : setCount (notes ++ m.note (.setTimer intervalNs)) = setCount notes + 1 :=
      setCount_append
    exact h.setTimer (by omega) intervalNs
  | cancelTimer timerId => exact h.cancelTimer timerId
  | submitIntent intent => exact (List.append_nil notes).symm ▸ h
  | subscribeQuote source instrumentId => exact (List.append_nil notes).symm ▸ h
  | connectTrade source => exact (List.append_nil notes).symm ▸ h
  | cancelAll instrumentId => exact (List.append_nil notes).symm ▸ h

theorem Clean.afterCalls (h : m.Clean notes) {calls : List ContextCall}
    (hroom : setCount (notes ++ m.notes nowNs calls) < 2 ^ 64) :
    (m.afterCalls nowNs calls).Clean (notes ++ m.notes nowNs calls) := by
  induction calls generalizing m notes with
  | nil => exact (List.append_nil notes).symm ▸ h
  | cons call calls ih =>
    rw [TimerManager.notes, ← List.append_assoc] at hroom ⊢
    refine ih (h.perform ?_) hroom
    rw [setCount_append] at hroom
    omega

theorem Clean.dueTimers (h : m.Clean notes) : (m.dueTimers nowNs).1.Clean notes where
  issued := h.issued.dueTimers nowNs
  gone := by
    intro timerId hmem
    rw [schedule_dueTimers, h.gone timerId hmem, Option.map_none]
  below := h.below

theorem Clean.onTimer (h : m.Clean notes) (event : TimerEvent) :
    m.Clean (notes ++ [.onTimer event]) := by
  have hcount : setCount (notes ++ [.onTimer event]) = setCount notes := setCount_append
  have hold : ∀ timerId, .cancelled timerId ∈ notes ++ [.onTimer event] →
      TimerNote.cancelled timerId ∈ notes := by
    intro timerId hmem
    rcases List.mem_append.mp hmem with hmem | hmem
    · exact hmem
    · have heq := List.mem_singleton.mp hmem
      cases heq
  exact ⟨hcount ▸ h.issued, fun timerId hmem => h.gone timerId (hold timerId hmem),
    fun timerId hmem => hcount ▸ h.below timerId (hold timerId hmem)⟩

theorem Clean.afterWalk (h : m.Clean notes) {events : List TimerEvent}
    {calls : List (List ContextCall)}
    (hroom : setCount (notes ++ walkNotes nowNs m events calls) < 2 ^ 64) :
    (afterWalk nowNs m events calls).Clean (notes ++ walkNotes nowNs m events calls) := by
  induction events generalizing m notes calls with
  | nil => exact (List.append_nil notes).symm ▸ h
  | cons event events ih =>
    rw [walkNotes, List.append_cons, ← List.append_assoc] at hroom ⊢
    refine ih ((h.onTimer event).afterCalls ?_) hroom
    rw [setCount_append] at hroom
    omega

theorem Clean.afterTick (h : m.Clean notes) {calls : List (List ContextCall)}
    (hroom : setCount (notes ++ m.tickNotes nowNs calls) < 2 ^ 64) :
    (m.afterTick nowNs calls).Clean (notes ++ m.tickNotes nowNs calls) :=
  h.dueTimers.afterWalk hroom

/-- While the ids do not run out, a timer that is due was not cancelled. -/
theorem Clean.not_cancelled_of_due (h : m.Clean notes) {event : TimerEvent}
    (hdue : event ∈ (m.dueTimers nowNs).2) : .cancelled event.timerId ∉ notes := by
  intro hmem
  obtain ⟨_, timer, hlive, _⟩ := (h.issued.mem_dueTimers_iff nowNs event).mp hdue
  rw [h.gone event.timerId hmem] at hlive
  cases hlive

end Clean

end TimerManager

end Nnxt
