import Nnxt.ActionDelivery

/-!
# Adding a source

A pass of the loop that adds a queue either only changes the phase or opens one
more reader, which starts at the end of its queue and has taken nothing.
-/

namespace Nnxt.TradeGatewayRunner

set_option autoImplicit false

open HashMap RingSystem

theorem Segment.added_queue (segment : Segment) (addr : String) :
    (segment.added addr).queue = segment.queue := by
  unfold Segment.added
  split <;> rfl

namespace System

section Attempt
variable {s : System} {addr : String} {n : Nat} {queue : RingSystem Action}
  {startup : Option (List String)}

theorem inHand_startup (startup : Option (List String)) :
    ((startup.map beginAdding).getD .polling).inHand = [] := by
  cases startup with
  | none => rfl
  | some rest => cases rest <;> rfl

theorem queueAt_addSucceeded (source m : Nat) :
    (s.addSucceeded addr n queue source startup).queueAt m =
      (s.queueAt m).map fun queue => if n = m then queue.step (.connect source) else queue := by
  have hstep := @queueAt_stepAt s { s with segments := s.stepAt n (.connect source) } n
    (.connect source) rfl m
  rw [← hstep, queueAt, System.addSucceeded, List.getElem?_map, Option.map_map, queueAt]
  refine congrArg (Option.map · (s.stepAt n (.connect source))[m]?) (funext fun segment => ?_)
  exact segment.added_queue addr

/-- The new source reads the queue it has mapped from its end on. -/
theorem reads_addSucceeded (hstarts : s.starts.length = s.mapped.length) {source i m start : Nat} :
    (s.addSucceeded addr n queue source startup).Reads i m start ↔
      s.Reads i m start ∨ i = s.mapped.length ∧ m = n ∧ start = queue.log.length := by
  simp only [System.Reads, System.addSucceeded, getElem?_concat, hstarts]
  by_cases hi : i = s.mapped.length
  · have hnone : s.mapped[i]? = none := List.getElem?_eq_none_iff.mpr (Nat.le_of_eq hi.symm)
    rw [if_pos hi, if_pos hi, hnone]
    simp only [Option.some.injEq, reduceCtorEq, false_and, hi, true_and, false_or]
    exact and_congr eq_comm eq_comm
  · rw [if_neg hi, if_neg hi]
    simp only [hi, false_and, or_false]

theorem connect_added (h : s.Inv) (hqueue : s.queueAt n = some queue)
    (hcan : canConnect queue = true) :
    (queue.step (.connect s.mapped.length)).cursor =
      Function.update queue.cursor s.mapped.length (some queue.log.length) :=
  connect_cursor (h.rings n queue hqueue) hcan (h.fresh n queue hqueue _ (Nat.le_refl _))

theorem cursorAt_addSucceeded (h : s.Inv) (hqueue : s.queueAt n = some queue)
    (hcan : canConnect queue = true) {i m c : Nat} (hne : i ≠ s.mapped.length) :
    (s.addSucceeded addr n queue s.mapped.length startup).CursorAt i m c ↔ s.CursorAt i m c := by
  have hcursor := connect_added h hqueue hcan
  unfold CursorAt
  simp only [queueAt_addSucceeded, Option.map_eq_some_iff, exists_exists_and_eq_and]
  refine exists_congr fun found => and_congr_right fun hfound => ?_
  split
  · rename_i heq
    rw [← heq, hqueue] at hfound
    cases hfound
    rw [hcursor, Function.update_of_ne hne]
  · rfl

theorem cursorAt_added (h : s.Inv) (hqueue : s.queueAt n = some queue)
    (hcan : canConnect queue = true) :
    (s.addSucceeded addr n queue s.mapped.length startup).CursorAt s.mapped.length n
      queue.log.length := by
  refine ⟨queue.step (.connect s.mapped.length), ?_, ?_⟩
  · rw [queueAt_addSucceeded, hqueue, Option.map_some, if_pos rfl]
  · rw [connect_added h hqueue hcan, Function.update_self]

theorem ne_added {i m start : Nat} (hr : s.Reads i m start) : i ≠ s.mapped.length :=
  Nat.ne_of_lt hr.lt

/-- The only reader that the queue of the new source gains is that source. -/
theorem Inv.fresh_addSucceeded (h : s.Inv) (hqueue : s.queueAt n = some queue)
    (hcan : canConnect queue = true) {m i : Nat} {found : RingSystem Action}
    (hfound : (s.addSucceeded addr n queue s.mapped.length startup).queueAt m = some found)
    (hi : s.mapped.length + 1 ≤ i) : found.readers i = none := by
  rw [queueAt_addSucceeded] at hfound
  obtain ⟨before, hbefore, rfl⟩ := Option.map_eq_some_iff.mp hfound
  split
  · rename_i heq
    rw [← heq, hqueue] at hbefore
    cases hbefore
    have hne : i ≠ s.mapped.length := Nat.ne_of_gt hi
    obtain ⟨ring, slot, -, hstep⟩ := connect_readers hcan
      (h.fresh n queue hqueue s.mapped.length (Nat.le_refl _))
    rw [hstep]
    exact (Function.update_of_ne hne _ _).trans (h.fresh n queue hqueue i (Nat.le_of_lt hi))
  · exact h.fresh m before hbefore i (Nat.le_of_lt hi)

theorem Inv.reading_addSucceeded (h : s.Inv) (hqueue : s.queueAt n = some queue)
    (hcan : canConnect queue = true) {i m start : Nat}
    (hr : (s.addSucceeded addr n queue s.mapped.length startup).Reads i m start) :
    ∃ c, (s.addSucceeded addr n queue s.mapped.length startup).CursorAt i m c ∧ start ≤ c := by
  rcases (reads_addSucceeded h.starts).mp hr with hr | ⟨rfl, rfl, rfl⟩
  · obtain ⟨c, hc, hle⟩ := h.reading i m start hr
    exact ⟨c, (cursorAt_addSucceeded h hqueue hcan (ne_added hr)).mpr hc, hle⟩
  · exact ⟨_, cursorAt_added h hqueue hcan, Nat.le_refl _⟩

/-- Nothing is taken from the new source, which stands where it started. -/
theorem Inv.passed_addSucceeded (h : s.Inv) (hqueue : s.queueAt n = some queue)
    (hcan : canConnect queue = true) (i k : Nat) :
    (∃ m start c, s.Reads i m start ∧ s.CursorAt i m c ∧ start ≤ k ∧ k < c) ↔
      ∃ m start c, (s.addSucceeded addr n queue s.mapped.length startup).Reads i m start ∧
        (s.addSucceeded addr n queue s.mapped.length startup).CursorAt i m c ∧
        start ≤ k ∧ k < c := by
  constructor
  · intro hmem
    obtain ⟨m, start, c, hr, hc, hk⟩ := hmem
    exact ⟨m, start, c, (reads_addSucceeded h.starts).mpr (Or.inl hr),
      (cursorAt_addSucceeded h hqueue hcan (ne_added hr)).mpr hc, hk⟩
  · intro hmem
    obtain ⟨m, start, c, hr, hc, hle, hlt⟩ := hmem
    rcases (reads_addSucceeded h.starts).mp hr with hr | ⟨rfl, rfl, rfl⟩
    · exact ⟨m, start, c, hr, (cursorAt_addSucceeded h hqueue hcan (ne_added hr)).mp hc, hle, hlt⟩
    · rw [hc.unique (cursorAt_added h hqueue hcan)] at hlt
      exact absurd hlt (Nat.not_lt_of_le hle)

theorem Inv.addSucceeded (h : s.Inv) (hqueue : s.queueAt n = some queue)
    (hcan : canConnect queue = true) (hphase : s.phase.inHand = []) :
    (s.addSucceeded addr n queue s.mapped.length startup).Inv := by
  have hlength : (s.addSucceeded addr n queue s.mapped.length startup).mapped.length =
      s.mapped.length + 1 := List.length_append
  have htaken : (s.addSucceeded addr n queue s.mapped.length startup).taken = s.taken := by
    simp only [System.taken, System.addSucceeded, inHand_startup, hphase]
  refine ⟨?_, ?_, ?_, ?_, ?_, ?_, ?_, ?_, ?_⟩
  · intro m found hfound
    rw [queueAt_addSucceeded] at hfound
    obtain ⟨before, hbefore, rfl⟩ := Option.map_eq_some_iff.mp hfound
    split
    · exact (h.rings m before hbefore).connect _
    · exact h.rings m before hbefore
  · intro m found hfound i hi
    rw [hlength] at hi
    exact h.fresh_addSucceeded hqueue hcan hfound hi
  · rw [hlength, ← h.sources]
    exact List.length_append
  · rw [hlength, ← h.starts]
    exact List.length_append
  · intro i m start hr
    exact h.reading_addSucceeded hqueue hcan hr
  · intro i hi
    rw [hlength] at hi
    rcases Nat.lt_or_eq_of_le (Nat.le_of_lt_succ hi) with hlt | heq
    · exact Finset.mem_insert_of_mem (h.known i hlt)
    · exact heq ▸ Finset.mem_insert_self _ _
  · intro i k
    rw [htaken, h.taken]
    exact h.passed_addSucceeded hqueue hcan i k
  · rw [htaken]
    exact h.once
  · intro call hcall
    obtain ⟨⟨start, hr⟩, found, hfound, hvalue⟩ := h.calls call hcall
    refine ⟨⟨start, (reads_addSucceeded h.starts).mpr (Or.inl hr)⟩, ?_⟩
    rw [queueAt_addSucceeded, hfound]
    refine ⟨_, rfl, ?_⟩
    split
    · exact getElem?_of_prefix (log_prefix_step _ _) hvalue
    · exact hvalue

theorem find_eq_some {found : Nat × RingSystem Action} (h : s.find addr = some found) :
    s.queueAt found.1 = some found.2 := by
  obtain ⟨n, -, hn⟩ := Option.bind_eq_some_iff.mp h
  obtain ⟨queue, hqueue, rfl⟩ := Option.map_eq_some_iff.mp hn
  exact hqueue

/-- A pass of the retry loop adds a source or only changes the phase. -/
theorem attempt_cases (s : System) :
    s.attempt = s ∨
      (s.phase.inHand = [] ∧ ∃ phase : Phase, phase.inHand = [] ∧
        s.attempt = { s with phase := phase }) ∨
      (s.phase.inHand = [] ∧ ∃ addr n queue startup, s.queueAt n = some queue ∧
        canConnect queue = true ∧
        s.attempt = s.addSucceeded addr n queue s.ctx.rapidSources.length startup) := by
  have hfailed : ∀ startup : Option (List String),
      (if startup.isSome then Phase.stopped else Phase.polling).inHand = [] := by
    intro startup
    split <;> rfl
  unfold System.attempt
  split
  · rename_i addr attempt startup hphase
    have hhand : s.phase.inHand = [] := by rw [hphase]; rfl
    right
    split
    · split
      · left
        refine ⟨hhand, ?_⟩
        split
        · exact ⟨_, hfailed startup, rfl⟩
        · exact ⟨_, rfl, rfl⟩
      · rename_i n queue hfound
        cases hcan : canConnect queue with
        | true => exact Or.inr ⟨hhand, addr, n, queue, startup, find_eq_some hfound, hcan, rfl⟩
        | false => exact Or.inl ⟨hhand, _, hfailed startup, rfl⟩
    · exact Or.inl ⟨hhand, _, hfailed startup, rfl⟩
  · exact Or.inl rfl

theorem Inv.attempt (h : s.Inv) : s.attempt.Inv := by
  rcases s.attempt_cases with hsame | ⟨hhand, phase, hphase, hafter⟩ |
    ⟨hhand, addr, n, queue, startup, hqueue, hcan, hafter⟩
  · rw [hsame]
    exact h
  · rw [hafter]
    exact h.withPhase (hphase.trans hhand.symm)
  · rw [hafter, h.sources]
    exact h.addSucceeded hqueue hcan hhand

end Attempt

end System

end Nnxt.TradeGatewayRunner
