import Nnxt.SentActions

/-!
# Recorded and published over a whole session

From the start on, the queue holds what was recorded but for what `on_start`
led to, so the two agree exactly when a start leads to nothing.
-/

namespace Nnxt.SentActions

set_option autoImplicit false

open StrategyRunner ExecutionEngine

section Sessions
variable {addr : String} {missed : List Action} {s : Session}

/-- A session that has stopped may have moved on to another queue, but writes nothing more. -/
def Linked (addr : String) (missed : List Action) (s : Session) : Prop :=
  Accounted addr missed s.runner s.ctx ∧
    (s.running = true → s.runner.actionQueueAddr = some addr)

theorem Linked.step (h : Linked addr missed s) (event : Event × Reaction) :
    Linked addr missed (s.step event) := by
  obtain ⟨event, reaction⟩ := event
  unfold Session.step
  by_cases hrunning : s.running = true
  · rw [if_pos hrunning]
    have hrec : Recorded addr missed s.runner s.ctx := ⟨h.2 hrunning, h.1⟩
    cases event with
    | data sourceId payload =>
      have hdata := hrec.handleDataEvent sourceId payload reaction.nowNs reaction.calls
      have htick := hdata.tickTimers reaction.tickNs reaction.timerCalls
      exact ⟨htick.2, fun _ => htick.1⟩
    | control | external | timer =>
      have htick := hrec.tickTimers reaction.tickNs reaction.timerCalls
      exact ⟨htick.2, fun _ => htick.1⟩
    | shutdown =>
      refine ⟨Outcome.andThen_keeps (accounted_pendingCallback hrec reaction)
        fun _ _ _ h₁ => h₁, ?_⟩
      intro hgoing
      cases hresult : (s.runner.handleEventWithCtx .shutdown reaction s.ctx).result with
      | error error =>
        simp only [hresult] at hgoing
        cases hgoing
      | ok stop =>
        obtain ⟨_, _, heq⟩ := Outcome.andThen_ok hresult
        simp only [handleEventWithCtx, heq] at hgoing
        cases hgoing
  · rw [if_neg hrunning]
    exact h

end Sessions

end Nnxt.SentActions
