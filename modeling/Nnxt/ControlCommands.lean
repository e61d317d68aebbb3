import Nnxt.MarketGatewayRunner
import Nnxt.TradeGatewayRunner

/-!
# The text of control commands

A control message is a verb and an argument with white space allowed around both. The
runners take exactly the messages of this form, and the argument that was written is the
one that is read.
-/

namespace Nnxt.ControlCommands

set_option autoImplicit false

open TradeHandshake (trim isWhiteSpace parseTradeCommand)
open GatewayRunner Trimming
open Polling (Message)

def White (text : String) : Prop := ∀ c ∈ text.toList, isWhiteSpace c = true

/-- No white space at the ends. -/
def Plain (text : String) : Prop := Bare isWhiteSpace text.toList

/-- The bytes of a verb and its argument, with white space around them. -/
structure Written (verb argument : String) (message : Message) : Prop where
  plain : Plain argument
  text : ∃ before between after, White before ∧ White between ∧ White after ∧
    message = asBytes (before ++ verb ++ between ++ argument ++ after)

/-- A text that trimming leaves in its place. -/
structure Verb (verb : String) : Prop where
  nonempty : verb.toList ≠ []
  plain : Plain verb

/-- The argument that a runner reads behind a verb. -/
def argumentOf (verb : String) (message : Message) : Option String :=
  match fromUtf8 message with
  | .error _ => none
  | .ok value => (stripPrefix verb (trim value)).map trim

section Text
variable {verb argument text : String} {message : Message}

theorem toList_trim (text : String) : (trim text).toList = trimmed isWhiteSpace text.toList := by
  rw [trim, String.toList_ofList]
  rfl

theorem plain_trim (text : String) : Plain (trim text) := by
  rw [Plain, toList_trim]
  exact bare_trimmed _ _

theorem stripPrefix_eq_some_iff {rest : String} :
    stripPrefix verb text = some rest ↔ text = verb ++ rest := by
  have hlength : verb.length = verb.toList.length := String.length_toList.symm
  rw [stripPrefix, hlength]
  constructor
  · intro h
    split at h
    · rename_i hsplit
      cases h
      apply String.toList_inj.mp
      rw [String.toList_append, String.toList_ofList]
      exact (List.prefix_iff_eq_append.mp (List.isPrefixOf_iff_prefix.mp hsplit)).symm
    · cases h
  · rintro rfl
    rw [String.toList_append, if_pos (List.isPrefixOf_iff_prefix.mpr (List.prefix_append _ _)),
      List.drop_left, String.ofList_toList]

theorem exists_white (text : String) :
    ∃ before after, text = before ++ trim text ++ after ∧ White before ∧ White after := by
  obtain ⟨before, after, htext, hbefore, hafter⟩ := exists_pad isWhiteSpace text.toList
  refine ⟨String.ofList before, String.ofList after, ?_, ?_, ?_⟩
  · apply String.toList_inj.mp
    simp only [String.toList_append, String.toList_ofList, toList_trim]
    exact htext
  · rw [White, String.toList_ofList]
    exact hbefore
  · rw [White, String.toList_ofList]
    exact hafter

/-- Reading back what was written. -/
theorem argumentOf_of_written (hverb : Verb verb) (h : Written verb argument message) :
    argumentOf verb message = some argument := by
  obtain ⟨hplain, before, between, after, hbefore, hbetween, hafter, rfl⟩ := h
  have htrimmed : trim (before ++ verb ++ between ++ argument ++ after) =
      verb ++ String.ofList ((between ++ argument).toList.rdropWhile isWhiteSpace) := by
    have hassoc : (before ++ verb ++ between ++ argument ++ after).toList =
        before.toList ++ (verb.toList ++ (between ++ argument).toList) ++ after.toList := by
      simp only [String.toList_append, List.append_assoc]
    apply String.toList_inj.mp
    rw [toList_trim, hassoc, trimmed_pad hbefore hafter, hverb.plain.trimmed_append hverb.nonempty]
    simp only [String.toList_append, String.toList_ofList]
  have hargument : trim (String.ofList ((between ++ argument).toList.rdropWhile isWhiteSpace)) =
      argument := by
    have hpad := @trimmed_pad _ isWhiteSpace argument.toList between.toList [] hbetween
      (List.forall_mem_nil _)
    rw [List.append_nil] at hpad
    apply String.toList_inj.mp
    rw [toList_trim, String.toList_ofList, trimmed_rdropWhile, String.toList_append, hpad,
      hplain.trimmed_eq]
  rw [argumentOf, InstrumentIds.fromUtf8_asBytes]
  simp only [stripPrefix_eq_some_iff.mpr htrimmed, Option.map_some, hargument]

/-- Nothing else is read. -/
theorem written_of_argumentOf (h : argumentOf verb message = some argument) :
    Written verb argument message := by
  unfold argumentOf at h
  cases hvalue : fromUtf8 message with
  | error e =>
    rw [hvalue] at h
    cases h
  | ok value =>
    rw [hvalue] at h
    obtain ⟨rest, hrest, rfl⟩ := Option.map_eq_some_iff.mp h
    rw [stripPrefix_eq_some_iff] at hrest
    obtain ⟨before, after, houter, hbefore, hafter⟩ := exists_white value
    obtain ⟨between, after', hinner, hbetween, hafter'⟩ := exists_white rest
    refine ⟨plain_trim rest, before, between, after' ++ after, hbefore, hbetween, ?_, ?_⟩
    · intro c hc
      rw [String.toList_append, List.mem_append] at hc
      exact hc.elim (hafter' c) (hafter c)
    · rw [InstrumentIds.eq_of_fromUtf8 hvalue]
      congr 1
      calc value = before ++ (verb ++ (between ++ trim rest ++ after')) ++ after := by
            rw [← hinner, ← hrest, ← houter]
        _ = before ++ verb ++ between ++ trim rest ++ (after' ++ after) := by
            simp only [String.append_assoc]

theorem argumentOf_iff (hverb : Verb verb) :
    argumentOf verb message = some argument ↔ Written verb argument message :=
  ⟨written_of_argumentOf, argumentOf_of_written hverb⟩

end Text

/-- The command that a market gateway reads in a message. -/
def marketCommandOf (message : Message) : Option MarketControlCommand :=
  match fromUtf8 message with
  | .error _ => none
  | .ok value => (parseMarketCommand (trim value)).toOption

/-- The action queue that a trade gateway is told to add. -/
def addedQueueOf (message : Message) : Option String :=
  match fromUtf8 message with
  | .error _ => none
  | .ok value => parseTradeCommand (trim value)

section Commands
variable {message : Message} {instrument : InstrumentId} {text : String}

theorem verb_subscribe : Verb "subscribe:" where
  nonempty := by decide
  plain := @bare_of_ends _ _ _ 's' ':' (by decide) (by decide) (by decide) (by decide)

theorem verb_unsubscribe : Verb "unsubscribe:" where
  nonempty := by decide
  plain := @bare_of_ends _ _ _ 'u' ':' (by decide) (by decide) (by decide) (by decide)

theorem verb_addActionQueue : Verb "add_action_queue:" where
  nonempty := by decide
  plain := @bare_of_ends _ _ _ 'a' ':' (by decide) (by decide) (by decide) (by decide)

/-- No message carries both verbs. -/
theorem stripPrefix_subscribe_unsubscribe (rest : String) :
    stripPrefix "subscribe:" ("unsubscribe:" ++ rest) = none := by
  rw [stripPrefix, String.toList_append, if_neg]
  intro h
  obtain ⟨after, hafter⟩ := List.isPrefixOf_iff_prefix.mp h
  have hfirst := congrArg List.head? hafter
  have hs : "subscribe:".toList.head? = some 's' := by decide
  have hu : "unsubscribe:".toList.head? = some 'u' := by decide
  rw [List.head?_append, List.head?_append, hs, hu, Option.some_or, Option.some_or] at hfirst
  exact absurd hfirst (by decide)

theorem marketCommandOf_subscribe :
    marketCommandOf message = some (.subscribe instrument) ↔
      ∃ text, argumentOf "subscribe:" message = some text ∧
        InstrumentId.fromStr text = .ok instrument := by
  unfold marketCommandOf argumentOf parseMarketCommand
  cases fromUtf8 message with
  | error e => simp
  | ok value =>
    dsimp only
    cases stripPrefix "subscribe:" (trim value) with
    | some rest =>
      cases hid : InstrumentId.fromStr (trim rest) <;> simp [hid, Except.toOption]
    | none =>
      cases stripPrefix "unsubscribe:" (trim value) with
      | some rest =>
        cases hid : InstrumentId.fromStr (trim rest) <;> simp [hid, Except.toOption]
      | none => simp [Except.toOption]

theorem marketCommandOf_unsubscribe :
    marketCommandOf message = some (.unsubscribe instrument) ↔
      ∃ text, argumentOf "unsubscribe:" message = some text ∧
        InstrumentId.fromStr text = .ok instrument := by
  unfold marketCommandOf argumentOf parseMarketCommand
  cases fromUtf8 message with
  | error e => simp
  | ok value =>
    dsimp only
    cases hsubscribe : stripPrefix "subscribe:" (trim value) with
    | some rest =>
      have hnone : stripPrefix "unsubscribe:" (trim value) = none := by
        cases hunsubscribe : stripPrefix "unsubscribe:" (trim value) with
        | none => rfl
        | some rest' =>
          rw [stripPrefix_eq_some_iff.mp hunsubscribe, stripPrefix_subscribe_unsubscribe]
            at hsubscribe
          cases hsubscribe
      cases hid : InstrumentId.fromStr (trim rest) <;> simp [hid, hnone, Except.toOption]
    | none =>
      cases stripPrefix "unsubscribe:" (trim value) with
      | some rest =>
        cases hid : InstrumentId.fromStr (trim rest) <;> simp [hid, Except.toOption]
      | none => simp [Except.toOption]

theorem addedQueueOf_eq (message : Message) :
    addedQueueOf message = argumentOf "add_action_queue:" message := by
  unfold addedQueueOf argumentOf parseTradeCommand stripPrefix
  cases fromUtf8 message with
  | error e => rfl
  | ok value =>
    dsimp only
    split <;> rfl

/-- The gateway is told of a command exactly when one is read. -/
theorem callOf_mem_iff {G : Type} {callbacks : MarketGatewayCallbacks G} {gateway : G}
    {command : MarketControlCommand} :
    MarketGatewayRunner.callOf command ∈
        (MarketGatewayRunner.handleControlMessage callbacks gateway message).2 ↔
      marketCommandOf message = some command := by
  have hreply : ∀ payload, MarketGatewayRunner.callOf command ≠ .reply payload := by
    cases command <;> nofun
  have hinjective : ∀ command', MarketGatewayRunner.callOf command =
      MarketGatewayRunner.callOf command' ↔ command' = command := by
    intro command'
    cases command <;> cases command' <;> simp [MarketGatewayRunner.callOf, eq_comm]
  unfold MarketGatewayRunner.handleControlMessage marketCommandOf
  cases fromUtf8 message with
  | error e => simp [hreply]
  | ok value =>
    dsimp only
    cases parseMarketCommand (trim value) with
    | error e => simp [hreply, Except.toOption]
    | ok command' =>
      dsimp only
      split <;> simp [hreply, hinjective, Except.toOption]

/-- What is not a command leaves the gateway alone. -/
theorem handleControlMessage_refused {G : Type} {callbacks : MarketGatewayCallbacks G} {gateway : G}
    (h : marketCommandOf message = none) :
    (MarketGatewayRunner.handleControlMessage callbacks gateway message).1 = gateway ∧
      ∃ payload ∈ ["error", "error: invalid utf8"],
        (MarketGatewayRunner.handleControlMessage callbacks gateway message).2 =
          [.reply payload] := by
  unfold marketCommandOf at h
  unfold MarketGatewayRunner.handleControlMessage
  cases hvalue : fromUtf8 message with
  | error e => exact ⟨rfl, _, by simp, rfl⟩
  | ok value =>
    rw [hvalue] at h
    dsimp only at h ⊢
    cases hcommand : parseMarketCommand (trim value) with
    | error e => exact ⟨rfl, _, by simp, rfl⟩
    | ok command =>
      rw [hcommand] at h
      cases h

/-- The queue is the one that the trade gateway goes on to add. -/
theorem handleControlMessage_adding {s : TradeGatewayRunner.System} {addr : String}
    (hpolling : s.phase = .polling) :
    (s.handleControlMessage (fromUtf8 message).toOption).phase = .adding addr 1 none ↔
      addedQueueOf message = some addr := by
  unfold TradeGatewayRunner.System.handleControlMessage addedQueueOf
  cases fromUtf8 message with
  | error e => simp [Except.toOption, hpolling]
  | ok value =>
    simp only [Except.toOption]
    cases parseTradeCommand (trim value) <;> simp [hpolling]

end Commands

/-- What the two gateway runners do with a message, by what is written in it. -/
structure ActsOnWritten {G : Type} (callbacks : MarketGatewayCallbacks G) (message : Message) :
    Prop where
  subscribe : ∀ gateway instrument,
    .onSubscribe instrument ∈
        (MarketGatewayRunner.handleControlMessage callbacks gateway message).2 ↔
      ∃ text, Written "subscribe:" text message ∧ InstrumentId.fromStr text = .ok instrument
  unsubscribe : ∀ gateway instrument,
    .onUnsubscribe instrument ∈
        (MarketGatewayRunner.handleControlMessage callbacks gateway message).2 ↔
      ∃ text, Written "unsubscribe:" text message ∧ InstrumentId.fromStr text = .ok instrument
  addActionQueue : ∀ (s : TradeGatewayRunner.System) addr, s.phase = .polling →
    ((s.handleControlMessage (fromUtf8 message).toOption).phase = .adding addr 1 none ↔
      Written "add_action_queue:" addr message)
  refused : ∀ gateway,
    (∀ verb ∈ ["subscribe:", "unsubscribe:"], ∀ text instrument, Written verb text message →
      InstrumentId.fromStr text ≠ .ok instrument) →
    (MarketGatewayRunner.handleControlMessage callbacks gateway message).1 = gateway ∧
      ∃ payload ∈ ["error", "error: invalid utf8"],
        (MarketGatewayRunner.handleControlMessage callbacks gateway message).2 = [.reply payload]
  once : ∀ verb text text', Verb verb → Written verb text message → Written verb text' message →
    text = text'

/-- A message is acted on if and only if it is a verb and an argument with any white space
around them, and what was written is what is read. -/
theorem acts_on_written {G : Type} (callbacks : MarketGatewayCallbacks G) (message : Message) :
    ActsOnWritten callbacks message where
  subscribe := fun gateway instrument => by
    have hmem := @callOf_mem_iff message G callbacks gateway (.subscribe instrument)
    rw [marketCommandOf_subscribe] at hmem
    simp only [argumentOf_iff verb_subscribe] at hmem
    exact hmem
  unsubscribe := fun gateway instrument => by
    have hmem := @callOf_mem_iff message G callbacks gateway (.unsubscribe instrument)
    rw [marketCommandOf_unsubscribe] at hmem
    simp only [argumentOf_iff verb_unsubscribe] at hmem
    exact hmem
  addActionQueue := by
    intro s addr hpolling
    rw [handleControlMessage_adding hpolling, addedQueueOf_eq, argumentOf_iff verb_addActionQueue]
  refused := by
    intro gateway hnone
    apply handleControlMessage_refused
    cases hcommand : marketCommandOf message with
    | none => rfl
    | some command =>
      cases command with
      | subscribe instrument =>
        obtain ⟨text, htext, hok⟩ := marketCommandOf_subscribe.mp hcommand
        exact absurd hok (hnone _ (by simp) _ _ (written_of_argumentOf htext))
      | unsubscribe instrument =>
        obtain ⟨text, htext, hok⟩ := marketCommandOf_unsubscribe.mp hcommand
        exact absurd hok (hnone _ (by simp) _ _ (written_of_argumentOf htext))
  once := by
    intro verb text text' hverb htext htext'
    have hsame := (argumentOf_of_written hverb htext).symm.trans
      (argumentOf_of_written hverb htext')
    exact Option.some.inj hsame

end Nnxt.ControlCommands
