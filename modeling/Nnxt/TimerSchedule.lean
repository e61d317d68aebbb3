import Nnxt.StrategyContext
import Nnxt.Foundation.KeyedList

/-!
# The schedule behind the timer vector

The vector of timers read as a function from ids to timers. While fewer than
`2 ^ 64` ids have been given out no two timers share one, and each operation is
an operation on that function.
-/

namespace Nnxt

set_option autoImplicit false

open KeyedList FixedWidth

theorem swapRemove_perm {α : Type} {xs : List α} {i : Nat} (h : i < xs.length) :
    (swapRemove xs i).Perm (xs.eraseIdx i) := by
  rcases xs.eq_nil_or_concat with rfl | ⟨xs, last, rfl⟩
  · cases h
  · rw [List.concat_eq_append] at h ⊢
    rw [List.length_append, List.length_singleton] at h
    have hlast : (xs ++ [last]).getLast? = some last := by simp
    rw [swapRemove, hlast]
    by_cases hi : i < xs.length
    · rw [List.eraseIdx_append_of_lt_length hi]
      simp only [List.set_append_left _ _ hi, List.dropLast_concat]
      rw [List.set_eq_take_append_cons_drop, if_pos hi, List.eraseIdx_eq_take_drop_succ]
      refine List.perm_middle.trans ?_
      exact (List.perm_append_singleton last _).symm
    · have heq : i = xs.length := by omega
      subst heq
      simp only [List.set_append_right _ _ (Nat.le_refl _), Nat.sub_self, List.set_cons_zero,
        List.dropLast_concat, List.eraseIdx_append_of_length_le (Nat.le_refl _),
        List.eraseIdx_cons_zero, List.append_nil]
      exact List.Perm.refl xs

/-- Due timers fire and are set again, the others stay. -/
def TimerState.rearmed (nowNs : UInt64) (timer : TimerState) : TimerState :=
  if timer.nextFireNs ≤ nowNs then
    { timer with nextFireNs := saturatingAdd nowNs timer.intervalNs }
  else timer

@[simp] theorem TimerState.rearmed_id (nowNs : UInt64) (timer : TimerState) :
    (timer.rearmed nowNs).id = timer.id := by
  unfold rearmed
  split <;> rfl

@[simp] theorem TimerState.rearmed_intervalNs (nowNs : UInt64) (timer : TimerState) :
    (timer.rearmed nowNs).intervalNs = timer.intervalNs := by
  unfold rearmed
  split <;> rfl

namespace TimerManager

/-- The live timer of an id. -/
def schedule (m : TimerManager) (timerId : UInt64) : Option TimerState :=
  entry TimerState.id m.timers timerId

/-- `count` ids have been given out, from zero on, and the live timers have theirs among them. -/
structure Issued (m : TimerManager) (count : Nat) : Prop where
  next : m.nextId = UInt64.ofNat count
  keyed : Keyed TimerState.id m.timers
  below : ∀ timer ∈ m.timers, timer.id.toNat < count

theorem timers_dueTimers (m : TimerManager) (nowNs : UInt64) :
    (m.dueTimers nowNs).1.timers = m.timers.map (TimerState.rearmed nowNs) := rfl

theorem issued_default : TimerManager.default.Issued 0 where
  next := rfl
  keyed := keyed_nil
  below := fun _ h => absurd h List.not_mem_nil

section Operations
variable {m : TimerManager} {count : Nat}

theorem Issued.toNat_nextId (h : m.Issued count) (hcount : count < 2 ^ 64) :
    m.nextId.toNat = count := by
  rw [h.next, UInt64.toNat_ofNat']
  exact Nat.mod_eq_of_lt hcount

theorem Issued.fresh (h : m.Issued count) (hcount : count < 2 ^ 64) :
    m.nextId ∉ m.timers.map TimerState.id := by
  intro hmem
  obtain ⟨timer, htimer, heq⟩ := List.mem_map.mp hmem
  have hlt := h.below timer htimer
  rw [heq, h.toNat_nextId hcount] at hlt
  omega

theorem Issued.setTimer (h : m.Issued count) (hcount : count < 2 ^ 64) (intervalNs nowNs : UInt64) :
    (m.setTimer intervalNs nowNs).1.Issued (count + 1) where
  next := by
    change m.nextId + 1 = UInt64.ofNat (count + 1)
    rw [h.next]
    simp
  keyed := h.keyed.append_singleton (h.fresh hcount)
  below := by
    intro timer htimer
    rcases List.mem_append.mp htimer with hold | hnew
    · exact Nat.lt_succ_of_lt (h.below timer hold)
    · rw [List.mem_singleton.mp hnew, h.toNat_nextId hcount]
      exact Nat.lt_succ_self count

theorem cancelTimer_cases (m : TimerManager) (timerId : UInt64) :
    (m.cancelTimer timerId = (m, false) ∧ timerId ∉ m.timers.map TimerState.id) ∨
    ∃ i, ∃ h : i < m.timers.length, m.timers[i].id = timerId ∧
      m.cancelTimer timerId = ({ m with timers := swapRemove m.timers i }, true) := by
  unfold cancelTimer
  cases hfind : m.timers.findIdx? fun timer => timer.id = timerId with
  | none =>
    refine Or.inl ⟨rfl, fun hmem => ?_⟩
    obtain ⟨timer, htimer, heq⟩ := List.mem_map.mp hmem
    have hnot := List.findIdx?_eq_none_iff.mp hfind timer htimer
    exact of_decide_eq_false hnot heq
  | some i =>
    obtain ⟨hlt, hid, _⟩ := List.findIdx?_eq_some_iff_getElem.mp hfind
    exact Or.inr ⟨i, hlt, of_decide_eq_true hid, rfl⟩

theorem Issued.cancelTimer (h : m.Issued count) (timerId : UInt64) :
    (m.cancelTimer timerId).1.Issued count := by
  rcases cancelTimer_cases m timerId with ⟨heq, _⟩ | ⟨i, hi, _, heq⟩
  · rw [heq]
    exact h
  · rw [heq]
    have hperm := swapRemove_perm hi
    refine ⟨h.next, (h.keyed.sublist (List.eraseIdx_sublist m.timers i)).perm hperm.symm, ?_⟩
    intro timer htimer
    exact h.below timer (List.mem_of_mem_eraseIdx (hperm.mem_iff.mp htimer))

theorem Issued.dueTimers (h : m.Issued count) (nowNs : UInt64) :
    (m.dueTimers nowNs).1.Issued count where
  next := h.next
  keyed := by
    rw [timers_dueTimers, Keyed, map_key_map (TimerState.rearmed_id nowNs)]
    exact h.keyed
  below := by
    intro timer htimer
    rw [timers_dueTimers] at htimer
    obtain ⟨old, hold, rfl⟩ := List.mem_map.mp htimer
    rw [TimerState.rearmed_id]
    exact h.below old hold

theorem schedule_setTimer (h : m.Issued count) (hcount : count < 2 ^ 64)
    (intervalNs nowNs : UInt64) :
    (m.setTimer intervalNs nowNs).1.schedule =
      Function.update m.schedule m.nextId
        (some ⟨m.nextId, intervalNs, saturatingAdd nowNs intervalNs⟩) :=
  entry_append_singleton (h.fresh hcount)

theorem schedule_cancelTimer (h : m.Issued count) (timerId : UInt64) :
    (m.cancelTimer timerId).1.schedule = Function.update m.schedule timerId none := by
  rcases cancelTimer_cases m timerId with ⟨heq, hnot⟩ | ⟨i, hi, hid, heq⟩
  · have hnone : m.schedule timerId = none := entry_eq_none_iff.mpr hnot
    rw [heq, ← hnone, Function.update_eq_self]
  · rw [heq, ← hid]
    have hperm := swapRemove_perm hi
    have hkeyed := h.keyed.sublist (List.eraseIdx_sublist m.timers i)
    calc entry TimerState.id (swapRemove m.timers i)
        = entry TimerState.id (m.timers.eraseIdx i) := hkeyed.entry_perm hperm.symm
      _ = Function.update m.schedule m.timers[i].id none := h.keyed.entry_eraseIdx hi

/-- The reply of a cancel tells whether the timer was live. -/
theorem snd_cancelTimer (m : TimerManager) (timerId : UInt64) :
    (m.cancelTimer timerId).2 = (m.schedule timerId).isSome := by
  rcases cancelTimer_cases m timerId with ⟨heq, hnot⟩ | ⟨i, hi, hid, heq⟩
  · rw [heq, show m.schedule timerId = none from entry_eq_none_iff.mpr hnot]
    rfl
  · rw [heq]
    cases hfound : m.schedule timerId with
    | none =>
      have hmem := List.mem_map_of_mem (f := TimerState.id) (List.getElem_mem hi)
      exact absurd (hid ▸ hmem) (entry_eq_none_iff.mp hfound)
    | some timer => rfl

theorem schedule_dueTimers (m : TimerManager) (nowNs timerId : UInt64) :
    (m.dueTimers nowNs).1.schedule timerId =
      (m.schedule timerId).map (TimerState.rearmed nowNs) :=
  entry_map (TimerState.rearmed_id nowNs) timerId

theorem mem_snd_dueTimers (m : TimerManager) (nowNs : UInt64) (event : TimerEvent) :
    event ∈ (m.dueTimers nowNs).2 ↔
      ∃ timer ∈ m.timers, timer.nextFireNs ≤ nowNs ∧ event = ⟨timer.id, nowNs⟩ := by
  unfold TimerManager.dueTimers
  constructor
  · intro hmem
    obtain ⟨timer, htimer, rfl⟩ := List.mem_map.mp hmem
    obtain ⟨htimer, hdue⟩ := List.mem_filter.mp htimer
    exact ⟨timer, htimer, of_decide_eq_true hdue, rfl⟩
  · rintro ⟨timer, htimer, hdue, rfl⟩
    exact List.mem_map_of_mem (List.mem_filter.mpr ⟨htimer, decide_eq_true hdue⟩)

theorem Issued.mem_dueTimers_iff (h : m.Issued count) (nowNs : UInt64) (event : TimerEvent) :
    event ∈ (m.dueTimers nowNs).2 ↔
      event.timestamp = nowNs ∧
        ∃ timer, m.schedule event.timerId = some timer ∧ timer.nextFireNs ≤ nowNs := by
  rw [mem_snd_dueTimers]
  constructor
  · rintro ⟨timer, htimer, hdue, rfl⟩
    exact ⟨rfl, timer, h.keyed.entry_eq_some_iff.mpr ⟨htimer, rfl⟩, hdue⟩
  · rintro ⟨htime, timer, hlive, hdue⟩
    refine ⟨timer, mem_of_entry hlive, hdue, ?_⟩
    rw [key_of_entry hlive, ← htime]

theorem Issued.nodup_dueTimers (h : m.Issued count) (nowNs : UInt64) :
    ((m.dueTimers nowNs).2.map (·.timerId)).Nodup := by
  unfold TimerManager.dueTimers
  rw [List.map_map]
  exact h.keyed.sublist List.filter_sublist

end Operations

end TimerManager

end Nnxt
