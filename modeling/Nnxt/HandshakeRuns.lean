import Nnxt.HandshakeChannel

/-!
# Which handshakes lose nothing

Whether the gateway's reader starts at the first action is decided by the order
of one write and one connect; what has been missed stays missed.
-/

namespace Nnxt.TradeHandshake

set_option autoImplicit false

open RingSystem

section Runs
variable {cfg : Config} {s : State}

/-- Everything one step can do to the action queue. -/
inductive ChannelStep (cfg : Config) (s : State) (i : Step) : Option Channel → Prop where
  | same : ChannelStep cfg s i s.channel
  | created (ring : Ring Action) (writer : Writer) (hphase : s.phase = .idle)
      (hcreate : Ring.create cfg.capacity cfg.maxReaders cfg.zeroed = .ok (ring, writer)) :
      ChannelStep cfg s i (some ⟨RingSystem.start ring writer, [], [], none⟩)
  | written (action : Action) (hi : i = .writeAction action) (hphase : s.phase = .connected) :
      ChannelStep cfg s i (s.channel.map (·.write action))
  | connected : ChannelStep cfg s i (s.channel.map (·.connect))
  | polled : ChannelStep cfg s i (s.channel.map (·.poll))

theorem channelStep (cfg : Config) (s : State) (i : Step) :
    ChannelStep cfg s i (step cfg s i).channel := by
  cases i with
  | createQueue =>
    simp only [step, createQueue]
    split
    · rename_i hphase hcreate
      exact .created _ _ hphase hcreate
    · exact .same
    · exact .same
  | sendRegister =>
    simp only [step, sendRegister]
    split <;> exact .same
  | masterServe nowNs socket =>
    simp only [step, masterServe]
    split <;> exact .same
  | receiveReply =>
    simp only [step, receiveReply]
    split <;> exact .same
  | writeAction action =>
    simp only [step, writeAction]
    split
    · rename_i hphase
      exact .written action rfl hphase
    · exact .same
  | handleCommand =>
    simp only [step, handleCommand]
    split
    · exact .same
    · split
      · exact .connected
      · exact .same
  | poll => exact .polled

theorem step_idle {i : Step} (h : (step cfg s i).phase = .idle) :
    s.phase = .idle ∧ (s.channel = none → (step cfg s i).channel = none) := by
  cases i with
  | createQueue =>
    simp only [step, createQueue] at h ⊢
    split at h
    · cases h
    · cases h
    · rename_i hother
      exact ⟨h, id⟩
  | sendRegister =>
    simp only [step, sendRegister] at h ⊢
    split at h
    · cases h
    · rename_i hother
      rw [if_neg hother]
      exact ⟨h, id⟩
  | masterServe nowNs socket =>
    simp only [step, masterServe] at h ⊢
    split at h
    · exact ⟨h, id⟩
    · exact ⟨h, id⟩
  | receiveReply =>
    simp only [step, receiveReply] at h ⊢
    split at h
    · exact ⟨h, id⟩
    · cases h
    · cases h
  | writeAction action =>
    simp only [step, writeAction] at h ⊢
    split at h
    · rename_i hphase
      rw [hphase] at h
      cases h
    · rename_i hphase
      rw [if_neg hphase]
      exact ⟨h, id⟩
  | handleCommand =>
    simp only [step, handleCommand] at h ⊢
    split at h
    · exact ⟨h, id⟩
    · split at h
      · rename_i hok
        rw [if_pos hok]
        refine ⟨h, ?_⟩
        intro hnone
        simp only [hnone, Option.map_none]
      · rename_i hok
        rw [if_neg hok]
        exact ⟨h, id⟩
  | poll =>
    refine ⟨h, ?_⟩
    intro hnone
    simp only [step, hnone, Option.map_none]

structure Inv (s : State) : Prop where
  fresh : s.phase = .idle → s.channel = none
  linked : ∀ c ∈ s.channel, Linked c

def AllOnTime (s : State) : Prop := ∀ c ∈ s.channel, OnTime c

theorem linked_start (ring : Ring Action) (writer : Writer) :
    Linked ⟨RingSystem.start ring writer, [], [], none⟩ :=
  ⟨rfl, Iff.intro (fun _ => rfl) (fun _ => rfl)⟩

theorem Inv.step (h : Inv s) (i : Step) : Inv (TradeHandshake.step cfg s i) := by
  constructor
  · intro hidle
    obtain ⟨hphase, hkeep⟩ := step_idle hidle
    exact hkeep (h.fresh hphase)
  · intro c hc
    have hstep := channelStep cfg s i
    generalize (TradeHandshake.step cfg s i).channel = after at hstep hc
    cases hstep with
    | same => exact h.linked c hc
    | created ring writer =>
      cases hc
      exact linked_start ring writer
    | written action =>
      obtain ⟨c₀, hc₀, rfl⟩ := Option.map_eq_some_iff.mp hc
      exact (h.linked c₀ hc₀).write action
    | connected =>
      obtain ⟨c₀, hc₀, rfl⟩ := Option.map_eq_some_iff.mp hc
      exact (h.linked c₀ hc₀).connect
    | polled =>
      obtain ⟨c₀, hc₀, rfl⟩ := Option.map_eq_some_iff.mp hc
      exact (h.linked c₀ hc₀).poll

theorem AllOnTime.step (hon : AllOnTime s) (h : Inv s) {i : Step} (hg : WritesAfterConnect s i) :
    AllOnTime (TradeHandshake.step cfg s i) := by
  intro c hc
  have hstep := channelStep cfg s i
  generalize (TradeHandshake.step cfg s i).channel = after at hstep hc
  cases hstep with
  | same => exact hon c hc
  | created ring writer =>
    cases hc
    refine ⟨fun _ => rfl, ?_⟩
    intro k hk
    cases hk
  | written action hi hphase =>
    obtain ⟨c₀, hc₀, rfl⟩ := Option.map_eq_some_iff.mp hc
    subst hi
    exact (hon c₀ hc₀).write (hg hphase c₀ hc₀) action
  | connected =>
    obtain ⟨c₀, hc₀, rfl⟩ := Option.map_eq_some_iff.mp hc
    exact (hon c₀ hc₀).connect (h.linked c₀ hc₀)
  | polled =>
    obtain ⟨c₀, hc₀, rfl⟩ := Option.map_eq_some_iff.mp hc
    exact onTime_poll_iff.mpr (hon c₀ hc₀)

/-- What has been missed stays missed. -/
theorem AllOnTime.of_step (h : Inv s) {i : Step} (hon : AllOnTime (TradeHandshake.step cfg s i)) :
    AllOnTime s := by
  intro c hc
  unfold AllOnTime at hon
  have hstep := channelStep cfg s i
  generalize (TradeHandshake.step cfg s i).channel = after at hstep hon
  cases hstep with
  | same => exact hon c hc
  | created ring writer hphase =>
    -- there was no queue before
    rw [h.fresh hphase] at hc
    cases hc
  | written action => exact (hon _ (Option.map_eq_some_iff.mpr ⟨c, hc, rfl⟩)).of_write
  | connected =>
    exact (hon _ (Option.map_eq_some_iff.mpr ⟨c, hc, rfl⟩)).of_connect (h.linked c hc)
  | polled => exact onTime_poll_iff.mp (hon _ (Option.map_eq_some_iff.mpr ⟨c, hc, rfl⟩))

theorem not_allOnTime_step {i : Step} (hg : ¬ WritesAfterConnect s i) :
    ¬ AllOnTime (TradeHandshake.step cfg s i) := by
  intro hon
  apply hg
  cases i with
  | writeAction action =>
    intro hphase c hc hnone
    have hchannel : (TradeHandshake.step cfg s (.writeAction action)).channel =
        some (c.write action) := by
      simp only [TradeHandshake.step, writeAction, if_pos hphase]
      rw [Option.mem_def.mp hc, Option.map_some]
    -- written while the reader is not there yet
    have hwritten := (hon _ hchannel).waiting hnone
    simp [Channel.write] at hwritten
  | createQueue => trivial
  | sendRegister => trivial
  | masterServe => trivial
  | receiveReply => trivial
  | handleCommand => trivial
  | poll => trivial

theorem allOnTime_run_iff (h : Inv s) (hon : AllOnTime s) (is : List Step) :
    AllOnTime (Transition.run (TradeHandshake.step cfg) s is) ↔
      Transition.Guarded (TradeHandshake.step cfg) WritesAfterConnect s is :=
  Transition.run_iff_guarded (fun _ i hs => hs.step i) (fun _ _ hs hon hg => hon.step hs hg)
    (fun _ _ _ _ hg => not_allOnTime_step hg) (fun _ _ hs hon => AllOnTime.of_step hs hon) h hon is

def AllDeliver (s : State) : Prop := ∀ c ∈ s.channel, Delivers c

def writtenCount (s : State) : Nat := (s.channel.map (·.written.length)).getD 0

theorem AllDeliver.step (h : AllDeliver s) {i : Step} (hunlapped : Unlapped s)
    (hfew : writtenCount (TradeHandshake.step cfg s i) < 2 ^ 64) :
    AllDeliver (TradeHandshake.step cfg s i) := by
  intro c hc
  have hcount : c.written.length < 2 ^ 64 := by
    rw [writtenCount, Option.mem_def.mp hc] at hfew
    exact hfew
  have hstep := channelStep cfg s i
  generalize (TradeHandshake.step cfg s i).channel = after at hstep hc
  cases hstep with
  | same => exact h c hc
  | created ring writer hphase hcreate =>
    cases hc
    refine ⟨inv_start hcreate, ?_, linked_start ring writer, fun _ => rfl, ?_⟩
    · unfold Ring.create at hcreate
      split at hcreate
      · cases hcreate
        rfl
      · cases hcreate
    · intro k hk
      cases hk
  | written action =>
    obtain ⟨c₀, hc₀, rfl⟩ := Option.map_eq_some_iff.mp hc
    exact (h c₀ hc₀).write action hcount
  | connected =>
    obtain ⟨c₀, hc₀, rfl⟩ := Option.map_eq_some_iff.mp hc
    exact (h c₀ hc₀).connect
  | polled =>
    obtain ⟨c₀, hc₀, rfl⟩ := Option.map_eq_some_iff.mp hc
    exact (h c₀ hc₀).poll (hunlapped c₀ hc₀)

theorem writtenCount_step (h : Inv s) (i : Step) :
    writtenCount s ≤ writtenCount (TradeHandshake.step cfg s i) := by
  have hstep := channelStep cfg s i
  unfold writtenCount
  generalize (TradeHandshake.step cfg s i).channel = after at hstep
  cases hstep with
  | same => exact Nat.le_refl _
  | created ring writer hphase => rw [h.fresh hphase]; exact Nat.le_refl _
  | written action =>
    cases s.channel with
    | none => exact Nat.le_refl _
    | some c => simp [Channel.write]
  | connected =>
    cases s.channel with
    | none => exact Nat.le_refl _
    | some c =>
      cases hr : c.queue.readers gatewayReader with
      | some slot => simp [connect_of_some hr]
      | none => simp [connect_of_none hr]
  | polled =>
    cases s.channel with
    | none => exact Nat.le_refl _
    | some c => simp [Channel.poll]

theorem writtenCount_run (h : Inv s) (is : List Step) :
    writtenCount s ≤ writtenCount (Transition.run (TradeHandshake.step cfg) s is) := by
  induction is generalizing s with
  | nil => exact Nat.le_refl _
  | cons i is ih => exact Nat.le_trans (writtenCount_step h i) (ih (h.step i))

theorem allDeliver_run (h : Inv s) (hd : AllDeliver s) {is : List Step}
    (hunlapped : Transition.Always (TradeHandshake.step cfg) Unlapped s is)
    (hfew : writtenCount (Transition.run (TradeHandshake.step cfg) s is) < 2 ^ 64) :
    AllDeliver (Transition.run (TradeHandshake.step cfg) s is) := by
  induction is generalizing s with
  | nil => exact hd
  | cons i is ih =>
    obtain ⟨hs, hrest⟩ := Transition.always_cons.mp hunlapped
    have hnext := Nat.lt_of_le_of_lt (@writtenCount_run cfg _ (h.step i) is) hfew
    exact ih (h.step i) (hd.step hs hnext) hrest hfew

theorem inv_start (master : MasterServer) : Inv (start master) := by
  refine ⟨fun _ => rfl, ?_⟩
  intro c hc
  cases hc

end Runs

/-- With the queue drained and never lapped, the gateway has executed exactly
the actions written, in order, if and only if none was written before it had
opened the queue. -/
theorem handshake_lossless_iff {cfg : Config} {master : MasterServer} {is : List Step} {c : Channel}
    (hc : (Transition.run (step cfg) (start master) is).channel = some c) (hdrained : Drained c)
    (hunlapped : Transition.Always (step cfg) Unlapped (start master) is)
    (hfew : c.written.length < 2 ^ 64) :
    c.executed = c.written ↔ Transition.Guarded (step cfg) WritesAfterConnect (start master) is := by
  have hnone : ∀ c ∈ (start master).channel, False := by
    intro c hc
    cases hc
  have hcount : writtenCount (Transition.run (step cfg) (start master) is) < 2 ^ 64 := by
    rw [writtenCount, hc]
    exact hfew
  have hdeliver := allDeliver_run (inv_start master) (fun c hc => (hnone c hc).elim) hunlapped hcount
  have hon := @allOnTime_run_iff cfg _ (inv_start master) (fun c hc => (hnone c hc).elim) is
  rw [(hdeliver c hc).executed_iff hdrained, ← hon]
  constructor
  · intro hc' c₁ hc₁
    rw [hc, Option.mem_some_iff] at hc₁
    exact hc₁ ▸ hc'
  · exact fun hall => hall c hc

def sampleConfig : Config := ⟨"s", "g", "ipc:///tmp/g", 4, 1, .ofCancelOrder ⟨default, 0, 0⟩⟩

def sampleMaster : MasterServer where
  registry := ((ActorRegistry.new.register ⟨"s", "strategy", []⟩ 0).1.register
    ⟨"g", "trade-gateway", [⟨"ipc:///tmp/g", "control"⟩]⟩ 0).1
  heartbeatTimeoutNs := 1000

def cancelOne : Action := .ofCancelOrder ⟨default, 1, 0⟩

def gatewayFirst : List Step :=
  [.createQueue, .sendRegister, .masterServe 1 .sent, .handleCommand, .receiveReply,
   .writeAction cancelOne, .poll]

/-- The reply overtakes the command. -/
def replyFirst : List Step :=
  [.createQueue, .sendRegister, .masterServe 1 .sent, .receiveReply, .writeAction cancelOne,
   .handleCommand, .poll]

theorem unlapped_of_inits {is : List Step}
    (h : ∀ js ∈ is.inits, Unlapped (Transition.run (step sampleConfig) (start sampleMaster) js)) :
    Transition.Always (step sampleConfig) Unlapped (start sampleMaster) is :=
  fun js hjs => h js ((List.mem_inits js is).mpr hjs)

theorem handshake_lossless_gateway_first :
    ∃ c, (Transition.run (step sampleConfig) (start sampleMaster) gatewayFirst).channel = some c ∧
      c.executed = c.written ∧ c.written = [cancelOne] := by
  refine ⟨_, rfl, ?_, by decide⟩
  have hunlapped : Transition.Always (step sampleConfig) Unlapped (start sampleMaster)
      gatewayFirst := unlapped_of_inits (by decide)
  refine (handshake_lossless_iff rfl (by decide) hunlapped (by decide)).mpr ?_
  simp only [gatewayFirst, Transition.guarded_cons, Transition.guarded_nil, and_true]
  refine ⟨trivial, trivial, trivial, trivial, trivial, ?_, trivial⟩
  intro _
  decide

theorem reply_first_loses_action :
    ¬ ∀ (cfg : Config) (master : MasterServer) (is : List Step) (c : Channel),
      (Transition.run (step cfg) (start master) is).channel = some c → Drained c →
      Transition.Always (step cfg) Unlapped (start master) is → c.executed = c.written := by
  intro h
  have hlost := h sampleConfig sampleMaster replyFirst _ rfl (by decide)
    (unlapped_of_inits (by decide))
  exact absurd hlost (by decide)

end Nnxt.TradeHandshake
