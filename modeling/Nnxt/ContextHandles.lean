import Nnxt.Foundation.KeyedList
import Nnxt.Foundation.Transition
import Nnxt.StrategyRunner

/-!
# The handles a Python strategy is given

Each callback hands Python an object that holds the address of the context of that
callback, and a flag. Python may keep the object; the stack slot behind the address is
used again by later callbacks. A strategy may run another runner within a callback, so
several contexts can be alive at once.
-/

namespace Nnxt

set_option autoImplicit false

inductive LogLevel where
  | debug
  | info
  | warn
  | error
  deriving DecidableEq, Repr

/-- The methods of the Python `StrategyContext`. -/
inductive PyMethod where
  | subscribeQuote (source : String) (instrument : InstrumentId)
  | connectTrade (target : String)
  | submitIntent (intent : Intent)
  | setTimer (intervalNs : UInt64)
  | cancelTimer (timerId : UInt64)
  | position (instrument : InstrumentId)
  | log (level : LogLevel) (message : String)

inductive PyValue where
  | none
  | int (value : UInt64)
  | bool (value : Bool)
  | position (position : Option (Int64 × Price × UInt64))
  deriving DecidableEq

/-- What a call from Python comes back with; `dangling` is the use of an address at which
no context is alive, which the language leaves undefined. -/
inductive PyAnswer where
  | ok (value : PyValue)
  | runtimeError (message : String)
  | dangling
  deriving DecidableEq

structure PyStrategyContext where
  ctx : Nat
  valid : Bool
  deriving DecidableEq, Repr

namespace PyStrategyContext

def checkValid (handle : PyStrategyContext) : Except String Unit :=
  if handle.valid then .ok () else .error "StrategyContext is only valid during callback"

def invalidate (handle : PyStrategyContext) : PyStrategyContext := { handle with valid := false }

end PyStrategyContext

namespace PyMethod

/-- The call on the context that the method makes; reading and logging make none. -/
def contextCall : PyMethod → Option ContextCall
  | .subscribeQuote source instrument => some (.subscribeQuote source instrument)
  | .connectTrade target => some (.connectTrade target)
  | .submitIntent intent => some (.submitIntent intent)
  | .setTimer intervalNs => some (.setTimer intervalNs)
  | .cancelTimer timerId => some (.cancelTimer timerId)
  | .position _ | .log .. => none

def perform (method : PyMethod) (ctx : StrategyContext) : StrategyContext :=
  match method.contextCall with
  | some call => ctx.perform call
  | none => ctx

def value (method : PyMethod) (ctx : StrategyContext) : PyValue :=
  match method with
  | .setTimer intervalNs => .int (ctx.timers.setTimer intervalNs ctx.nowNs).2
  | .cancelTimer timerId => .bool (ctx.timers.cancelTimer timerId).2
  | .position instrument =>
    .position ((ctx.state.position instrument).map fun pos =>
      (pos.quantity, pos.avgPrice, pos.lastUpdateNs))
  | _ => .none

/-- The methods that follow the address; the others look at the flag only. -/
def followsAddress : PyMethod → Bool
  | .log .. => false
  | _ => true

end PyMethod

namespace ContextHandles

open Transition KeyedList

/-- One activation of `call_with_ctx`: the context it was given, where that lies, and the
object made for it. -/
structure Callback where
  addr : Nat
  ctx : StrategyContext
  pyCtx : Nat

/-- The objects ever made and the callbacks that run, the innermost first. `answers` and
`returned` record what Python and the runners have got; no step reads them. -/
structure System where
  handles : List PyStrategyContext
  callbacks : List Callback
  answers : List PyAnswer
  returned : List StrategyContext

inductive Step where
  | enter (addr : Nat) (ctx : StrategyContext)
  | call (handle : Nat) (method : PyMethod)
  | leave

namespace System

def start : System := ⟨[], [], [], []⟩

def answer (s : System) (answer : PyAnswer) : System := { s with answers := s.answers ++ [answer] }

def performAt (s : System) (addr : Nat) (method : PyMethod) : System :=
  { s with callbacks := s.callbacks.map fun callback =>
      if callback.addr = addr then { callback with ctx := method.perform callback.ctx }
      else callback }

/-- `wrap_ctx`; the method of the strategy is called with the new object. -/
def enter (s : System) (addr : Nat) (ctx : StrategyContext) : System :=
  { s with
    handles := s.handles ++ [⟨addr, true⟩]
    callbacks := ⟨addr, ctx, s.handles.length⟩ :: s.callbacks }

def call (s : System) (handle : Nat) (method : PyMethod) : System :=
  match s.handles[handle]? with
  | none => s
  | some object =>
    match object.checkValid with
    | .error message => s.answer (.runtimeError message)
    | .ok _ =>
      if method.followsAddress then
        match s.callbacks.find? fun callback => callback.addr = object.ctx with
        | none => s.answer .dangling
        | some callback =>
          (s.performAt object.ctx method).answer (.ok (method.value callback.ctx))
      else s.answer (.ok .none)

/-- The method has returned or raised; either way the object is invalidated. -/
def leave (s : System) : System :=
  match s.callbacks with
  | [] => s
  | callback :: callbacks =>
    { s with
      handles := s.handles.modify callback.pyCtx PyStrategyContext.invalidate
      callbacks := callbacks
      returned := s.returned ++ [callback.ctx] }

def step (s : System) : Step → System
  | .enter addr ctx => s.enter addr ctx
  | .call handle method => s.call handle method
  | .leave => s.leave

end System

/-- No two contexts that are alive lie at one address. -/
def Fresh (s : System) : Step → Prop
  | .enter addr _ => addr ∉ s.callbacks.map (·.addr)
  | _ => True

instance (s : System) (i : Step) : Decidable (Fresh s i) := by
  unfold Fresh
  split <;> infer_instance

/-- What the handles are for: the callbacks that run, each with its own number, and no
address anywhere. -/
structure Running where
  made : Nat
  running : List (Nat × StrategyContext)
  answers : List PyAnswer
  returned : List StrategyContext

namespace Running

def start : Running := ⟨0, [], [], []⟩

def performOn (handle : Nat) (method : PyMethod) (callback : Nat × StrategyContext) :
    Nat × StrategyContext :=
  if callback.1 = handle then (callback.1, method.perform callback.2) else callback

def call (t : Running) (handle : Nat) (method : PyMethod) : Running :=
  if handle < t.made then
    match t.running.find? fun callback => callback.1 = handle with
    | none =>
      { t with answers := t.answers ++
          [.runtimeError "StrategyContext is only valid during callback"] }
    | some callback =>
      { t with
        running := t.running.map (performOn handle method)
        answers := t.answers ++ [.ok (method.value callback.2)] }
  else t

def step (t : Running) : Step → Running
  | .enter _ ctx => { t with made := t.made + 1, running := (t.made, ctx) :: t.running }
  | .call handle method => t.call handle method
  | .leave =>
    match t.running with
    | [] => t
    | callback :: running => { t with running := running, returned := t.returned ++ [callback.2] }

end Running

/-- An object is valid exactly while its callback runs, and then holds the address of the
context of that callback. -/
structure Mirrors (s : System) (t : Running) : Prop where
  made : t.made = s.handles.length
  running : t.running = s.callbacks.map fun callback => (callback.pyCtx, callback.ctx)
  answers : t.answers = s.answers
  returned : t.returned = s.returned
  addresses : Keyed (·.addr) s.callbacks
  objects : Keyed (·.pyCtx) s.callbacks
  held : ∀ callback ∈ s.callbacks, s.handles[callback.pyCtx]? = some ⟨callback.addr, true⟩
  stale : ∀ i object, s.handles[i]? = some object → object.valid = true →
    ∃ callback ∈ s.callbacks, callback.pyCtx = i
  defined : .dangling ∉ s.answers

section Call
variable {s : System} {t : Running} {handle : Nat} {callback : Callback}

theorem Mirrors.answered (h : Mirrors s t) {answer : PyAnswer} (hanswer : answer ≠ .dangling) :
    Mirrors (s.answer answer) { t with answers := t.answers ++ [answer] } where
  made := h.made
  running := h.running
  answers := congrArg (· ++ [answer]) h.answers
  returned := h.returned
  addresses := h.addresses
  objects := h.objects
  held := h.held
  stale := h.stale
  defined := by
    intro hmem
    rcases List.mem_append.mp hmem with hold | hnew
    · exact h.defined hold
    · exact hanswer (List.mem_singleton.mp hnew).symm

/-- The callback a valid object belongs to, and where its address leads. -/
theorem Mirrors.callback_of_valid (h : Mirrors s t) {object : PyStrategyContext}
    (hobject : s.handles[handle]? = some object) (hvalid : object.valid = true) :
    ∃ callback ∈ s.callbacks, callback.pyCtx = handle ∧ object = ⟨callback.addr, true⟩ := by
  obtain ⟨callback, hmem, rfl⟩ := h.stale handle object hobject hvalid
  have hheld := h.held callback hmem
  rw [hobject, Option.some.injEq] at hheld
  exact ⟨callback, hmem, rfl, hheld⟩

theorem Mirrors.find_running (h : Mirrors s t) (hmem : callback ∈ s.callbacks) :
    (t.running.find? fun entry => entry.1 = callback.pyCtx) =
      some (callback.pyCtx, callback.ctx) := by
  have hentry := h.objects.entry_eq_some_iff.mpr ⟨hmem, rfl⟩
  rw [h.running, List.find?_map]
  exact congrArg (Option.map _) hentry

theorem Mirrors.find_callbacks (h : Mirrors s t) (hmem : callback ∈ s.callbacks) :
    (s.callbacks.find? fun other => other.addr = callback.addr) = some callback :=
  h.addresses.entry_eq_some_iff.mpr ⟨hmem, rfl⟩

theorem Mirrors.find_none (h : Mirrors s t) {object : PyStrategyContext}
    (hobject : s.handles[handle]? = some object) (hvalid : object.valid = false) :
    (t.running.find? fun entry => entry.1 = handle) = none := by
  rw [h.running, List.find?_map, Option.map_eq_none_iff, List.find?_eq_none]
  intro callback hmem hsame
  have hheld := h.held callback hmem
  have hid : callback.pyCtx = handle := of_decide_eq_true hsame
  rw [hid, hobject, Option.some.injEq] at hheld
  rw [hheld] at hvalid
  cases hvalid

/-- The address picks out the same context as the object does. -/
theorem Mirrors.performed (h : Mirrors s t) (hmem : callback ∈ s.callbacks) (method : PyMethod) :
    Mirrors (s.performAt callback.addr method)
      { t with running := t.running.map (Running.performOn callback.pyCtx method) } := by
  have hsame : ∀ other ∈ s.callbacks, other.addr = callback.addr ↔ other.pyCtx = callback.pyCtx := by
    intro other hother
    constructor
    · intro haddr
      rw [h.addresses.inj hother hmem haddr]
    · intro hobject
      rw [h.objects.inj hother hmem hobject]
  have hkept : ∀ {key : Callback → Nat}, (∀ c ctx, key { c with ctx := ctx } = key c) →
      (s.performAt callback.addr method).callbacks.map key = s.callbacks.map key := by
    intro key hkey
    refine map_key_map fun c => ?_
    split
    · exact hkey c _
    · rfl
  have hback : ∀ c ∈ (s.performAt callback.addr method).callbacks,
      ∃ other ∈ s.callbacks, other.addr = c.addr ∧ other.pyCtx = c.pyCtx := by
    intro c hc
    obtain ⟨other, hother, rfl⟩ := List.mem_map.mp hc
    refine ⟨other, hother, ?_⟩
    split <;> exact ⟨rfl, rfl⟩
  refine ⟨h.made, ?_, h.answers, h.returned, ?_, ?_, ?_, ?_, h.defined⟩
  · show t.running.map _ = _
    rw [h.running, System.performAt, List.map_map, List.map_map]
    refine List.map_congr_left fun other hother => ?_
    simp only [Function.comp_apply, hsame other hother, Running.performOn]
    split <;> rfl
  · rw [Keyed, hkept fun _ _ => rfl]
    exact h.addresses
  · rw [Keyed, hkept fun _ _ => rfl]
    exact h.objects
  · intro c hc
    obtain ⟨other, hother, haddr, hobject⟩ := hback c hc
    rw [← haddr, ← hobject]
    exact h.held other hother
  · intro i object hobject hvalid
    obtain ⟨other, hother, rfl⟩ := h.stale i object hobject hvalid
    refine ⟨_, List.mem_map_of_mem hother, ?_⟩
    split <;> rfl

theorem map_performOn_log {method : PyMethod} (hmethod : method.followsAddress = false)
    (running : List (Nat × StrategyContext)) :
    running.map (Running.performOn handle method) = running := by
  rw [List.map_id'']
  intro entry
  cases method with
  | log level message => exact ite_self _
  | _ => cases hmethod

theorem value_of_log {method : PyMethod} (hmethod : method.followsAddress = false)
    (ctx : StrategyContext) : method.value ctx = .none := by
  cases method with
  | log level message => rfl
  | _ => cases hmethod

theorem Mirrors.call (h : Mirrors s t) (handle : Nat) (method : PyMethod) :
    Mirrors (s.call handle method) (t.call handle method) := by
  unfold System.call Running.call
  cases hobject : s.handles[handle]? with
  | none =>
    have hge : ¬ handle < t.made := by
      rw [h.made, Nat.not_lt]
      exact List.getElem?_eq_none_iff.mp hobject
    rw [if_neg hge]
    exact h
  | some object =>
    have hlt : handle < t.made := by
      rw [h.made]
      exact (List.getElem?_eq_some_iff.mp hobject).1
    rw [if_pos hlt]
    dsimp only
    cases hvalid : object.valid with
    | false =>
      rw [PyStrategyContext.checkValid, hvalid, h.find_none hobject hvalid]
      exact h.answered (by simp)
    | true =>
      obtain ⟨callback, hmem, rfl, rfl⟩ := h.callback_of_valid hobject hvalid
      rw [PyStrategyContext.checkValid, hvalid, h.find_running hmem]
      dsimp only
      rw [if_pos rfl]
      dsimp only
      cases hmethod : method.followsAddress with
      | false =>
        rw [map_performOn_log hmethod, value_of_log hmethod, if_neg Bool.false_ne_true]
        exact h.answered (by simp)
      | true =>
        rw [if_pos rfl, h.find_callbacks hmem]
        exact (h.performed hmem method).answered (by simp)

end Call

section Steps
variable {s : System} {t : Running}

theorem Mirrors.enter (h : Mirrors s t) {addr : Nat} (ctx : StrategyContext)
    (hfresh : addr ∉ s.callbacks.map (·.addr)) :
    Mirrors (s.enter addr ctx) (t.step (.enter addr ctx)) := by
  have hlt : ∀ callback ∈ s.callbacks, callback.pyCtx < s.handles.length := fun callback hmem =>
    (List.getElem?_eq_some_iff.mp (h.held callback hmem)).1
  refine ⟨?_, ?_, h.answers, h.returned, ?_, ?_, ?_, ?_, h.defined⟩
  · rw [Running.step, System.enter, List.length_append, List.length_singleton, h.made]
  · rw [Running.step, System.enter, List.map_cons, h.running, h.made]
  · exact List.nodup_cons.mpr ⟨hfresh, h.addresses⟩
  · refine List.nodup_cons.mpr ⟨fun hmem => ?_, h.objects⟩
    obtain ⟨callback, hcallback, hid⟩ := List.mem_map.mp hmem
    exact Nat.ne_of_lt (hlt callback hcallback) hid
  · intro callback hmem
    rcases List.mem_cons.mp hmem with rfl | hmem
    · exact List.getElem?_concat_length
    · rw [System.enter, List.getElem?_append_left (hlt callback hmem)]
      exact h.held callback hmem
  · intro i object hobject hvalid
    rcases Nat.lt_or_ge i s.handles.length with hi | hi
    · rw [System.enter, List.getElem?_append_left hi] at hobject
      obtain ⟨callback, hmem, hid⟩ := h.stale i object hobject hvalid
      exact ⟨callback, List.mem_cons_of_mem _ hmem, hid⟩
    · have hlast : i = s.handles.length := by
        have := (List.getElem?_eq_some_iff.mp hobject).1
        rw [System.enter, List.length_append, List.length_singleton] at this
        omega
      exact ⟨_, List.mem_cons_self, hlast.symm⟩

theorem Mirrors.leave (h : Mirrors s t) : Mirrors s.leave (t.step .leave) := by
  have hrunning := h.running
  unfold System.leave Running.step
  cases hcallbacks : s.callbacks with
  | nil =>
    rw [hcallbacks, List.map_nil] at hrunning
    rw [hrunning]
    exact h
  | cons callback callbacks =>
    rw [hcallbacks, List.map_cons] at hrunning
    rw [hrunning]
    dsimp only
    obtain ⟨-, haddresses⟩ := List.nodup_cons.mp (hcallbacks ▸ h.addresses)
    obtain ⟨hother, hobjects⟩ := List.nodup_cons.mp (hcallbacks ▸ h.objects)
    have hne : ∀ c ∈ callbacks, callback.pyCtx ≠ c.pyCtx := fun c hc hsame =>
      hother (List.mem_map.mpr ⟨c, hc, hsame.symm⟩)
    refine ⟨?_, rfl, h.answers, ?_, haddresses, hobjects, ?_, ?_, h.defined⟩
    · rw [List.length_modify]
      exact h.made
    · exact congrArg (· ++ [callback.ctx]) h.returned
    · intro c hc
      rw [List.getElem?_modify_ne _ _ (hne c hc)]
      exact h.held c (hcallbacks ▸ List.mem_cons_of_mem _ hc)
    · intro i object hobject hvalid
      by_cases hi : callback.pyCtx = i
      · subst hi
        rw [List.getElem?_modify_eq, Option.map_eq_map, Option.map_eq_some_iff] at hobject
        obtain ⟨before, -, rfl⟩ := hobject
        cases hvalid
      · rw [List.getElem?_modify_ne _ _ hi] at hobject
        obtain ⟨c, hc, hid⟩ := h.stale i object hobject hvalid
        rw [hcallbacks] at hc
        rcases List.mem_cons.mp hc with rfl | hc
        · exact absurd hid hi
        · exact ⟨c, hc, hid⟩

theorem Mirrors.step (h : Mirrors s t) {i : Step} (hi : Fresh s i) :
    Mirrors (s.step i) (t.step i) := by
  cases i with
  | enter addr ctx => exact h.enter ctx hi
  | call handle method => exact h.call handle method
  | leave => exact h.leave

theorem mirrors_start : Mirrors System.start Running.start where
  made := rfl
  running := rfl
  answers := rfl
  returned := rfl
  addresses := keyed_nil
  objects := keyed_nil
  held := fun _ hmem => by cases hmem
  stale := fun _ _ hobject _ => by cases hobject
  defined := fun hmem => by cases hmem

theorem Mirrors.run (h : Mirrors s t) {is : List Step} (hfresh : Guarded System.step Fresh s is) :
    Mirrors (run System.step s is) (run Running.step t is) := by
  induction is generalizing s t with
  | nil => exact h
  | cons i is ih =>
    rw [guarded_cons] at hfresh
    exact ih (h.step hfresh.1) hfresh.2

/-- How many callbacks deeper a run is at its end; `none` once it has left the one it
started in. -/
def depth : Nat → List Step → Option Nat
  | d, [] => some d
  | d, .enter .. :: is => depth (d + 1) is
  | d, .call .. :: is => depth d is
  | 0, .leave :: _ => none
  | d + 1, .leave :: is => depth d is

/-- The calls a run makes on the context through one object. -/
def callsOn (handle : Nat) (is : List Step) : List ContextCall :=
  is.filterMap fun
    | .call other method => if other = handle then method.contextCall else none
    | _ => none

theorem perform_eq_callback (method : PyMethod) (ctx : StrategyContext) :
    method.perform ctx = ctx.callback method.contextCall.toList := by
  unfold PyMethod.perform
  cases method.contextCall <;> rfl

theorem callsOn_cons_call (k handle : Nat) (method : PyMethod) (is : List Step) :
    callsOn k (.call handle method :: is) =
      (if handle = k then method.contextCall.toList else []) ++ callsOn k is := by
  rw [callsOn, List.filterMap_cons]
  dsimp only
  by_cases hk : handle = k
  · rw [if_pos hk, if_pos hk]
    cases method.contextCall <;> rfl
  · rw [if_neg hk, if_neg hk]
    rfl

theorem callback_append (ctx : StrategyContext) (calls calls' : List ContextCall) :
    ctx.callback (calls ++ calls') = (ctx.callback calls).callback calls' := List.foldl_append

/-- A call changes the entry of its own object, wherever that lies in the stack. -/
theorem running_call {k : Nat} {c : StrategyContext} {inner rest : List (Nat × StrategyContext)}
    (hrunning : t.running = inner ++ (k, c) :: rest) (hinner : k ∉ inner.map (·.1))
    (handle : Nat) (method : PyMethod) (hmade : k < t.made) :
    (t.call handle method).made = t.made ∧ ∃ inner' rest', inner'.map (·.1) = inner.map (·.1) ∧
      (t.call handle method).running =
        inner' ++ (k, if handle = k then method.perform c else c) :: rest' := by
  unfold Running.call
  by_cases hlt : handle < t.made
  · rw [if_pos hlt]
    split
    · rename_i hnone
      have hne : handle ≠ k := by
        rintro rfl
        rw [hrunning, List.find?_eq_none] at hnone
        exact hnone (handle, c) (by simp) (by simp)
      rw [if_neg hne]
      exact ⟨rfl, inner, rest, rfl, hrunning⟩
    · refine ⟨rfl, inner.map (Running.performOn handle method),
        rest.map (Running.performOn handle method), ?_, ?_⟩
      · rw [List.map_map]
        refine List.map_congr_left fun entry _ => ?_
        rw [Function.comp_apply, Running.performOn]
        split <;> rfl
      · dsimp only
        rw [hrunning, List.map_append, List.map_cons, Running.performOn]
        by_cases hk : handle = k
        · rw [if_pos hk, if_pos hk.symm]
        · rw [if_neg hk, if_neg fun h => hk h.symm]
  · have hne : handle ≠ k := by omega
    rw [if_neg hlt, if_neg hne]
    exact ⟨rfl, inner, rest, rfl, hrunning⟩

/-- However many callbacks run inside it, the context of one has at its end exactly what
was called through its own object. -/
theorem running_body {k : Nat} {c : StrategyContext} {inner rest : List (Nat × StrategyContext)}
    (hrunning : t.running = inner ++ (k, c) :: rest) (hinner : k ∉ inner.map (·.1))
    (hmade : k < t.made) {body : List Step} (hbody : depth inner.length body = some 0) :
    ∃ rest', (run Running.step t body).running = (k, c.callback (callsOn k body)) :: rest' := by
  induction body generalizing t c inner rest with
  | nil =>
    rw [depth, Option.some.injEq, List.length_eq_zero_iff] at hbody
    subst hbody
    exact ⟨rest, hrunning⟩
  | cons i body ih =>
    rw [run_cons]
    cases i with
    | enter addr ctx =>
      have hnew : k ∉ ((t.made, ctx) :: inner).map (·.1) := by
        rw [List.map_cons, List.mem_cons, not_or]
        exact ⟨Nat.ne_of_lt hmade, hinner⟩
      have hentered : (t.step (.enter addr ctx)).running = ((t.made, ctx) :: inner) ++ (k, c) :: rest := by
        rw [Running.step, hrunning, List.cons_append]
      exact ih hentered hnew (Nat.lt_succ_of_lt hmade) hbody
    | call handle method =>
      obtain ⟨hsame, inner', rest', hids, hcalled⟩ :=
        running_call hrunning hinner handle method hmade
      rw [callsOn_cons_call, callback_append]
      have hlength : inner'.length = inner.length := by
        rw [← List.length_map (f := (·.1)), hids, List.length_map]
      have hgoal := ih (t := t.step (.call handle method)) hcalled (hids ▸ hinner)
        (hsame ▸ hmade) (hlength ▸ hbody)
      by_cases hk : handle = k
      · rw [if_pos hk] at hgoal ⊢
        rw [← perform_eq_callback]
        exact hgoal
      · rw [if_neg hk] at hgoal ⊢
        exact hgoal
    | leave =>
      cases inner with
      | nil => cases hbody
      | cons top inner =>
        rw [List.map_cons, List.mem_cons, not_or] at hinner
        have hleft : (t.step .leave).running = inner ++ (k, c) :: rest := by
          rw [Running.step, hrunning, List.cons_append]
        have hsame : (t.step .leave).made = t.made := by
          rw [Running.step, hrunning, List.cons_append]
        exact ih hleft hinner.2 (hsame ▸ hmade) hbody

theorem returned_leave {callback : Nat × StrategyContext} {rest : List (Nat × StrategyContext)}
    (hrunning : t.running = callback :: rest) :
    (t.step .leave).returned = t.returned ++ [callback.2] := by
  rw [Running.step, hrunning]

/-- Over every run, whatever objects Python has kept and however the addresses are used
again, an object is the callback it was made for: no call follows an address at which no
context is alive, each is answered as if there were no addresses, and the runners get back
the same contexts. -/
theorem objects_are_callbacks (is : List Step) (hfresh : Guarded System.step Fresh .start is) :
    PyAnswer.dangling ∉ (run System.step .start is).answers ∧
      (run System.step .start is).answers = (run Running.step .start is).answers ∧
      (run System.step .start is).returned = (run Running.step .start is).returned := by
  have h := mirrors_start.run hfresh
  exact ⟨h.defined, h.answers.symm, h.returned.symm⟩

/-- A callback hands the runner the context it was given with exactly the calls made
through its own object, whatever else Python does meanwhile. -/
theorem returns_own_calls (before body : List Step) (addr : Nat) (ctx : StrategyContext)
    (hbody : depth 0 body = some 0)
    (hfresh : Guarded System.step Fresh .start (before ++ .enter addr ctx :: (body ++ [.leave]))) :
    (run System.step .start (before ++ .enter addr ctx :: (body ++ [.leave]))).returned.getLast? =
      some (ctx.callback
        (callsOn (run System.step .start before).handles.length body)) := by
  have hwhole := mirrors_start.run hfresh
  have hbefore := mirrors_start.run (hfresh.of_prefix (List.prefix_append _ _))
  rw [← hwhole.returned, ← hbefore.made, run_append, run_cons, run_append]
  have hentered : ((run Running.step .start before).step (.enter addr ctx)).running =
      [] ++ ((run Running.step .start before).made, ctx) ::
        (run Running.step .start before).running := rfl
  obtain ⟨rest, hended⟩ := running_body hentered (List.not_mem_nil) (Nat.lt_succ_self _) hbody
  rw [run_cons, run_nil, returned_leave hended, List.getLast?_concat]

/-- The context of a callback, empty of requests. -/
def emptyContext : StrategyContext := .new 5 .default .default

/-- The object of the first callback is kept and used in the second, whose context lies at
the same address; a third callback runs inside that one. -/
def keptObject : List Step :=
  [.enter 64 emptyContext, .call 0 (.connectTrade "gateway"), .leave]

def nestedBody : List Step :=
  [.call 0 (.setTimer 7), .call 1 (.setTimer 9), .enter 32 emptyContext,
   .call 1 (.connectTrade "sim"), .call 2 (.setTimer 8), .leave, .call 2 (.cancelTimer 0)]

theorem fresh_keptObject :
    Guarded System.step Fresh .start
      (keptObject ++ .enter 64 emptyContext :: (nestedBody ++ [.leave])) := by
  simp only [keptObject, nestedBody, List.cons_append, List.nil_append, guarded_cons]
  refine ⟨by decide, trivial, trivial, by decide, trivial, trivial, by decide, trivial, trivial,
    trivial, trivial, trivial, guarded_nil⟩

theorem objects_are_callbacks_kept_object :
    (run System.step .start (keptObject ++ .enter 64 emptyContext :: (nestedBody ++ [.leave]))).answers =
        [.ok .none, .runtimeError "StrategyContext is only valid during callback", .ok (.int 0),
         .ok .none, .ok (.int 0), .runtimeError "StrategyContext is only valid during callback"] ∧
      PyAnswer.dangling ∉ (run System.step .start
        (keptObject ++ .enter 64 emptyContext :: (nestedBody ++ [.leave]))).answers := by
  have h := objects_are_callbacks _ fresh_keptObject
  exact ⟨h.2.1.trans rfl, h.1⟩

theorem returns_own_calls_kept_object :
    (run System.step .start
        (keptObject ++ .enter 64 emptyContext :: (nestedBody ++ [.leave]))).returned.getLast? =
      some (emptyContext.callback [.setTimer 9, .connectTrade "sim"]) :=
  returns_own_calls keptObject nestedBody 64 emptyContext rfl fresh_keptObject

end Steps

end ContextHandles

end Nnxt
