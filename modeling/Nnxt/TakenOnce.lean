import Nnxt.CommitEffects

/-!
# How many sources take an entry

That is settled when the entry is committed: the sources that read its queue by
then take it, and every later one starts behind it.
-/

namespace Nnxt.TradeGatewayRunner

set_option autoImplicit false

open HashMap RingSystem Transition

namespace System

/-- Every entry that is due is taken by exactly one source. -/
def OneEach (s : System) : Prop :=
  ∀ n due log k, s.shownAt n = some (some due, log) → due ≤ k → k < log.length →
    ∃! i, s.Takes i n k

structure Placed (s : System) : Prop where
  sources : s.ctx.rapidSources.length = s.mapped.length
  starts : s.starts.length = s.mapped.length
  within : ∀ i n start, s.Reads i n start →
    ∃ due log, s.shownAt n = some (due, log) ∧ start ≤ log.length
  dueWithin : ∀ n due log, s.shownAt n = some (some due, log) → due ≤ log.length

section Effects
variable {s s' : System} {i : Step}

theorem Placed.dueWithin_effect (h : s.Placed) (he : Effect s s' i) (n due : Nat)
    (log : List Action) (hshown : s'.shownAt n = some (some due, log)) : due ≤ log.length := by
  rcases he.due_cases hshown with hend | hbefore | ⟨op, segment, -, hsegment, -, hdue, hlength, -⟩
  · exact Nat.le_of_eq hend
  · exact h.dueWithin n due log hbefore
  · have hold := h.dueWithin n due segment.queue.log (by rw [shownAt_of_segment hsegment, hdue])
    rw [hlength]
    exact Nat.le_succ_of_le hold

theorem Placed.effect (h : s.Placed) (he : Effect s s' i) : s'.Placed := by
  have hwithin : ∀ j n start, s'.Reads j n start →
      ∃ due log, s'.shownAt n = some (due, log) ∧ start ≤ log.length := by
    intro j n start hr
    rcases he.reads hr with hr | ⟨queue, hqueue, rfl⟩
    · obtain ⟨due, log, hshown, hle⟩ := h.within j n start hr
      obtain ⟨due', log', hshown', hle', -⟩ := he.grows hshown
      exact ⟨due', log', hshown', Nat.le_trans hle hle'⟩
    · obtain ⟨segment, hsegment, rfl⟩ := Option.map_eq_some_iff.mp hqueue
      obtain ⟨due', log', hshown', hle', -⟩ := he.grows (shownAt_of_segment hsegment)
      exact ⟨due', log', hshown', hle'⟩
  have hdueWithin := h.dueWithin_effect he
  cases he with
  | quiet _ guard ctx mapped starts shown =>
    exact ⟨by rw [ctx, mapped, h.sources], by rw [starts, mapped, h.starts], hwithin, hdueWithin⟩
  | created addr capacity due ctx mapped starts zero shown =>
    exact ⟨by rw [ctx, mapped, h.sources], by rw [starts, mapped, h.starts], hwithin, hdueWithin⟩
  | committed n op segment action found commits ctx mapped starts shown =>
    exact ⟨by rw [ctx, mapped, h.sources], by rw [starts, mapped, h.starts], hwithin, hdueWithin⟩
  | added n queue found sources starts reads marks shown =>
    exact ⟨sources, starts, hwithin, hdueWithin⟩

/-- An entry about to be committed is taken by the sources that read its queue. -/
theorem Placed.takes_next (h : s.Placed) {n : Nat} {segment : Segment}
    (hsegment : s.segments[n]? = some segment) (j : Nat) :
    s.Takes j n segment.queue.log.length ↔ s.mapped[j]? = some n := by
  constructor
  · intro htakes
    obtain ⟨start, hr, -⟩ := htakes
    exact hr.1
  · intro hmapped
    have hindex := (List.getElem?_eq_some_iff.mp hmapped).1
    rw [← h.starts] at hindex
    have hr : s.Reads j n s.starts[j] := ⟨hmapped, List.getElem?_eq_getElem hindex⟩
    obtain ⟨due, log, hshown, hle⟩ := h.within j n _ hr
    rw [shownAt_of_segment hsegment] at hshown
    cases hshown
    exact ⟨_, hr, hle⟩

theorem OneEach.effect (hone : s.OneEach) (h : s.Placed) (he : Effect s s' i)
    (hguard : s.OneSource i) : s'.OneEach := by
  intro n due log k hshown hle hlt
  have hold : ∀ log', s.shownAt n = some (some due, log') → k < log'.length → ∃! j, s'.Takes j n k := by
    intro log' hbefore hlt'
    rw [existsUnique_congr (he.takes_iff hbefore hlt')]
    exact hone n due log' k hbefore hle hlt'
  rcases he.due_cases hshown with hend | hbefore |
    ⟨op, segment, rfl, hsegment, hcommits, hdue, hlength, hmapped, hstarts⟩
  · exact absurd hlt (Nat.not_lt_of_le (hend ▸ hle))
  · exact hold log hbefore hlt
  · rw [hlength] at hlt
    rcases Nat.lt_or_eq_of_le (Nat.le_of_lt_succ hlt) with hlt | rfl
    · exact hold segment.queue.log (by rw [shownAt_of_segment hsegment, hdue]) hlt
    · -- the entry just committed
      rw [existsUnique_congr fun j => (takes_congr hmapped hstarts).trans (h.takes_next hsegment j)]
      exact hguard segment hsegment hcommits (hdue ▸ Option.some_ne_none due)

/-- Who takes an entry is settled when it is committed. -/
theorem not_oneEach_of_effect (h : s.Placed) (he : Effect s s' i) (hguard : ¬ s.OneSource i) :
    ¬ s'.OneEach := by
  intro hone
  cases he with
  | quiet _ guard ctx mapped starts shown => exact hguard guard
  | created addr capacity due ctx mapped starts zero shown => exact hguard trivial
  | committed n op segment action found commits ctx mapped starts shown =>
    apply hguard
    intro segment' found' _ hdue
    rw [found] at found'
    cases found'
    obtain ⟨due, hdue⟩ := Option.ne_none_iff_exists'.mp hdue
    have hle := h.dueWithin n due segment.queue.log (by rw [shownAt_of_segment found, hdue])
    have hunique := hone n due _ segment.queue.log.length (by rw [shown, if_pos rfl, hdue]) hle
      (by rw [List.length_append]; exact Nat.lt_succ_self _)
    rwa [existsUnique_congr fun j =>
      (takes_congr mapped starts).trans (h.takes_next found j)] at hunique
  | added n queue found sources starts reads marks shown => exact hguard trivial

theorem OneEach.of_effect (he : Effect s s' i) (h : s'.OneEach) : s.OneEach := by
  intro n due log k hshown hle hlt
  obtain ⟨due', log', hshown', hle', hdue⟩ := he.grows hshown
  rw [hdue due rfl] at hshown'
  rw [← existsUnique_congr (he.takes_iff hshown hlt)]
  exact h n due log' k hshown' hle (Nat.lt_of_lt_of_le hlt hle')

end Effects

theorem placed_start (actionQueues : List String) : (start actionQueues).Placed where
  sources := rfl
  starts := rfl
  within := fun _ _ _ hr => by cases hr.2
  dueWithin := fun _ _ _ hshown => by cases hshown

/-- Every entry that is due is taken by one source exactly when every commit of such
an entry found one source at its queue. -/
theorem oneEach_run_iff (actionQueues : List String) (is : List Step) :
    (run step (start actionQueues) is).OneEach ↔
      Guarded step OneSource (start actionQueues) is := by
  have hstart : (start actionQueues).OneEach := fun _ _ _ _ hshown => by cases hshown
  refine @run_iff_guarded _ _ step Placed OneEach OneSource ?_ ?_ ?_ ?_ _
    (placed_start actionQueues) hstart is
  · intro s i h
    exact h.effect (step_effect h.sources h.starts i)
  · intro s i h hone hguard
    exact hone.effect h (step_effect h.sources h.starts i) hguard
  · intro s i h _ hguard
    exact not_oneEach_of_effect h (step_effect h.sources h.starts i) hguard
  · intro s i h hone
    exact hone.of_effect (step_effect h.sources h.starts i)

end System

end Nnxt.TradeGatewayRunner
