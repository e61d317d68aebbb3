import Nnxt.DrainedGateway

/-!
# Each action is executed once

Along a run in which no reader is lapped. A queue added twice is executed by both
of its sources; one created anew is executed by none until it is added as well.
-/

namespace Nnxt.TradeGatewayRunner

set_option autoImplicit false

open HashMap RingSystem Transition

namespace System

section Runs
variable {actionQueues : List String} {is : List Step}

theorem always_inv (h : Always step NotLapped (start actionQueues) is) :
    Always step Inv (start actionQueues) is := by
  have hguard : Guarded step (fun s i => s.NotLapped ∧ (s.step i).NotLapped) (start actionQueues) is := by
    intro js i hpre
    refine ⟨h js ((List.prefix_append js [i]).trans hpre), ?_⟩
    have hafter := h (js ++ [i]) hpre
    rwa [run_append, run_cons, run_nil] at hafter
  refine always_of_guarded (fun s i hs hg => ?_) (inv_start actionQueues) hguard
  exact hs.step hg.1 hg.2.few

theorem always_append {s : System} {js : List Step} (his : Always step NotLapped s is)
    (hjs : Always step NotLapped (run step s is) js) : Always step NotLapped s (is ++ js) := by
  induction is generalizing s with
  | nil => exact hjs
  | cons i is ih =>
    obtain ⟨hhead, htail⟩ := always_cons.mp his
    exact always_cons.mpr ⟨hhead, ih htail hjs⟩

theorem drains (h : Always step NotLapped (start actionQueues) is)
    (hrunning : (run step (start actionQueues) is).Running) :
    ∃ js, (∀ i ∈ js, Own i) ∧ Always step NotLapped (start actionQueues) (is ++ js) ∧
      (run step (start actionQueues) (is ++ js)).Drained := by
  have hinv := (always_inv h).last
  have hlapped := h.last
  rcases hrunning with hphase | ⟨source, seq, hphase⟩
  · obtain ⟨js, hown, halways, hdrained⟩ := hinv.drains_polling _ hlapped hphase (Nat.le_refl _)
    refine ⟨js, hown, always_append h halways, ?_⟩
    rw [run_append]
    exact hdrained
  · obtain ⟨hpolling, hkept, -⟩ := hinv.handled hlapped hphase
    obtain ⟨js, hown, halways, hdrained⟩ := (hinv.handle hlapped true).drains_polling _ hkept hpolling
      (Nat.le_refl _)
    refine ⟨.handle true :: js, ?_, always_append h (always_cons.mpr ⟨hlapped, halways⟩), ?_⟩
    · intro i hi
      rcases List.mem_cons.mp hi with rfl | hi
      · rfl
      · exact hown i hi
    · rw [run_append]
      exact hdrained

/-- A drained gateway has executed each action once exactly when every action that
is due was committed while one source read its queue; and the loop drains by itself. -/
theorem executed_once_iff (h : Always step NotLapped (start actionQueues) is) :
    ((run step (start actionQueues) is).Drained →
      ((run step (start actionQueues) is).ExecutedOnce ↔
        Guarded step OneSource (start actionQueues) is)) ∧
    ((run step (start actionQueues) is).Running →
      ∃ js, (∀ i ∈ js, Own i) ∧ Always step NotLapped (start actionQueues) (is ++ js) ∧
        (run step (start actionQueues) (is ++ js)).Drained) := by
  refine ⟨fun hdrained => ?_, drains h⟩
  rw [(always_inv h).last.executedOnce_iff hdrained]
  exact oneEach_run_iff actionQueues is

end Runs

section Samples
variable {s : System}

theorem notLapped_iff : s.NotLapped ↔
    (∀ segment ∈ s.segments, segment.queue.log.length < 2 ^ 64) ∧
    (∀ p ∈ s.mapped.zipIdx, ∀ queue ∈ s.queueAt p.1, Unlapped queue p.2) ∧
    ∀ p ∈ s.phase.inHand, ∀ n ∈ s.mapped[p.1]?, ∀ queue ∈ s.queueAt n, ¬ queue.Refilled p.2 := by
  constructor
  · intro h
    refine ⟨h.few, h.unread, ?_⟩
    intro p hp
    obtain ⟨source, seq, hphase, rfl⟩ := mem_inHand hp
    exact h.inHand source seq hphase
  · intro h
    obtain ⟨hfew, hunread, hinHand⟩ := h
    refine ⟨hfew, hunread, ?_⟩
    intro source seq hphase
    apply hinHand (source, seq.toNat)
    rw [hphase]
    exact List.mem_singleton_self _

instance (s : System) : Decidable s.NotLapped := decidable_of_iff _ notLapped_iff.symm

theorem drained_iff : s.Drained ↔ s.phase.inHand = [] ∧
    ∀ p ∈ s.mapped.zipIdx, ∀ queue ∈ s.queueAt p.1, queue.cursor p.2 = some queue.log.length := by
  constructor
  · intro h
    exact ⟨h.inHand_nil, h.caughtUp⟩
  · intro h
    obtain ⟨hidle, hcaught⟩ := h
    refine ⟨?_, hcaught⟩
    intro source seq hphase
    rw [hphase] at hidle
    cases hidle

instance (s : System) : Decidable s.Drained := decidable_of_iff _ drained_iff.symm

theorem always_of_inits {actionQueues : List String} {is : List Step}
    (h : ∀ js ∈ is.inits, (run step (start actionQueues) js).NotLapped) :
    Always step NotLapped (start actionQueues) is :=
  fun js hjs => h js ((List.mem_inits js is).mpr hjs)

end Samples

def cancelOne : Action := .ofCancelOrder ⟨default, 1, 0⟩

def addAgain : PollInput := ⟨false, false, some (some "add_action_queue:a")⟩

/-- The strategy creates its queue anew and has it added again. -/
def restarted : List Step :=
  [.create "a" 4, .attempt, .unlink "a", .create "a" 4, .poll addAgain, .attempt,
   .writer 1 (.write cancelOne), .poll ⟨false, false, none⟩, .handle true]

/-- A control message adds the queue of the configuration again. -/
def addedAgain : List Step :=
  [.create "a" 4, .attempt, .poll addAgain, .attempt, .writer 0 (.write cancelOne),
   .poll ⟨false, false, none⟩, .handle true, .poll ⟨false, false, none⟩, .handle true]

theorem executed_once_restarted : (run step (start ["a"]) restarted).ExecutedOnce ∧
    (run step (start ["a"]) restarted).executed = [⟨1, 1, 0, cancelOne⟩] := by
  have hlapped : Always step NotLapped (start ["a"]) restarted := always_of_inits (by decide)
  have hdrained : (run step (start ["a"]) restarted).Drained := by decide
  refine ⟨((executed_once_iff hlapped).1 hdrained).mpr ?_, by decide⟩
  simp only [restarted, guarded_cons, guarded_nil, and_true]
  refine ⟨trivial, trivial, trivial, trivial, trivial, trivial, ?_, trivial, trivial⟩
  intro segment _ _ _
  have hmapped : (run step (start ["a"]) (restarted.take 6)).mapped = [0, 1] := by decide
  refine ⟨1, congrArg (·[1]?) hmapped, ?_⟩
  intro i hi
  have hi : [0, 1][i]? = some 1 := hmapped ▸ hi
  rcases i with _ | _ | i
  · cases hi
  · rfl
  · cases hi

theorem added_again_executes_twice : ¬ ∀ (actionQueues : List String) (is : List Step),
    Always step NotLapped (start actionQueues) is → (run step (start actionQueues) is).Drained →
    (run step (start actionQueues) is).ExecutedOnce := by
  intro h
  have hlapped : Always step NotLapped (start ["a"]) addedAgain := always_of_inits (by decide)
  obtain ⟨call, hcalls, -⟩ := h ["a"] addedAgain hlapped (by decide) 0 _ 0 0 rfl rfl
    (Nat.le_refl 0) (by decide)
  have htwice : ((run step (start ["a"]) addedAgain).callsAt 0 0).length = 2 := by decide
  rw [hcalls] at htwice
  cases htwice

end System

end Nnxt.TradeGatewayRunner
