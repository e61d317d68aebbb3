import Nnxt.Reactor
import Nnxt.RingRuns

/-!
# Draining the sources

While anything waits on a rapid source, a poll answers with the oldest message of
the first source that has one and touches nothing else. A run of polls without new
writes therefore returns what waits on the first source, then on the second, and so
on, each in commit order.
-/

namespace Nnxt.Polling

set_option autoImplicit false

variable {T E : Type}

/-- The messages of a source that wait: the log of its queue from its cursor on. -/
def pending (queues : List (RingSystem T)) (source : RapidSource) : List T :=
  match queues[source.queue]? with
  | none => []
  | some queue => ((queue.cursor source.sourceId).map fun c => queue.log.drop c).getD []

def dataEvents (sourceId : Nat) (c : Nat) (messages : List T) : List (Event T E) :=
  messages.mapIdx fun i value => .data sourceId (UInt64.ofNat (c + i)) value

/-- The events that hand these messages out. -/
def pendingEvents (queues : List (RingSystem T)) (source : RapidSource) : List (Event T E) :=
  match queues[source.queue]? with
  | none => []
  | some queue =>
    ((queue.cursor source.sourceId).map fun c =>
      dataEvents source.sourceId c (queue.log.drop c)).getD []

/-- The values of the data events that carry a source id. -/
def valuesFrom (sourceId : Nat) (events : List (Option (Event T E))) : List T :=
  events.filterMap fun
    | some (.data id _ value) => if id = sourceId then some value else none
    | _ => none

/-- No more messages wait for the reader than the queue can hold, and no write has
touched one of them. -/
structure Kept (queue : RingSystem T) (reader c : Nat) : Prop where
  inv : queue.Inv
  cursor : queue.cursor reader = some c
  fits : queue.log.length ≤ c + queue.ring.capacity.toNat
  intact : ∀ k, c ≤ k → k < queue.log.length → ¬ queue.Refilled k

def Waits (queues : List (RingSystem T)) (source : RapidSource) : Prop :=
  ∃ queue c, queues[source.queue]? = some queue ∧ Kept queue source.sourceId c

section Queue
variable {queue : RingSystem T} {reader c : Nat}

/-- With the writer at rest the capacity is all there is to ask for. -/
theorem kept_of_quiet (hinv : queue.Inv) (hquiet : queue.writer.hasPending = false)
    (hcursor : queue.cursor reader = some c)
    (hfits : queue.log.length ≤ c + queue.ring.capacity.toNat) : Kept queue reader c where
  inv := hinv
  cursor := hcursor
  fits := hfits
  intact := fun k hk _ => hinv.stored.not_refilled hquiet (by omega)

theorem Kept.slot (h : Kept queue reader c) :
    ∃ slot, queue.readers reader = some slot ∧ (queue.ring.readSeq slot).toNat = c :=
  Option.map_eq_some_iff.mp h.cursor

theorem Kept.tryRead_idle (h : Kept queue reader c) (hc : queue.log.length ≤ c) {slot : Nat}
    (hslot : queue.readers reader = some slot) : queue.ring.tryRead slot = (queue.ring, none) := by
  have hcursor := h.cursor
  rw [RingSystem.cursor_of_some hslot, Option.some.injEq] at hcursor
  have hle := h.inv.cursors.cursor_le reader slot hslot
  apply Ring.tryRead_caughtUp
  apply UInt64.toNat_inj.mp
  have hseq := h.inv.stored.writeSeq
  omega

/-- A reader that is behind is handed the message at its cursor. -/
theorem Kept.tryRead_next (h : Kept queue reader c) (hc : c < queue.log.length) {slot : Nat}
    (hslot : queue.readers reader = some slot) :
    ∃ value, queue.log[c]? = some value ∧ (queue.ring.served slot).toNat = c ∧
      queue.ring.load (queue.ring.served slot) = value ∧
      queue.ring.readSeq slot < queue.ring.writeSeq := by
  have hcursor := h.cursor
  rw [RingSystem.cursor_of_some hslot, Option.some.injEq] at hcursor
  have hseq := h.inv.stored.writeSeq
  have hbehind : queue.ring.readSeq slot < queue.ring.writeSeq :=
    UInt64.lt_iff_toNat_lt.mpr (by omega)
  have hserved : (queue.ring.served slot).toNat = c := by
    have hfits := h.fits
    rw [Ring.toNat_served (by omega)]
    omega
  have hcontent := h.inv.stored.content (queue.ring.served slot) (by omega)
    (by rw [hserved]; exact h.intact c (Nat.le_refl c) hc)
  rw [hserved] at hcontent
  exact ⟨_, hcontent, hserved, rfl, hbehind⟩

theorem Kept.advance (h : Kept queue reader c) (hc : c < queue.log.length) {slot : Nat}
    (hslot : queue.readers reader = some slot) : Kept (queue.advance reader slot) reader (c + 1) := by
  obtain ⟨value, -, hserved, -, hbehind⟩ := h.tryRead_next hc hslot
  refine ⟨h.inv.advance hslot hbehind, ?_, ?_, ?_⟩
  · rw [h.inv.cursor_advance hslot hbehind, Function.update_self, hserved]
  · have hfits := h.fits
    show queue.log.length ≤ c + 1 + queue.ring.capacity.toNat
    omega
  · exact fun k hk => h.intact k (by omega)

/-- The other readers of the queue stand where they stood. -/
theorem Kept.advance_other {other slot : Nat} (h : Kept queue other c)
    (hslot : queue.readers reader = some slot)
    (hbehind : queue.ring.readSeq slot < queue.ring.writeSeq) (hne : other ≠ reader) :
    Kept (queue.advance reader slot) other c where
  inv := h.inv.advance hslot hbehind
  cursor := by
    rw [h.inv.cursor_advance hslot hbehind, Function.update_of_ne hne]
    exact h.cursor
  fits := h.fits
  intact := h.intact

end Queue

section Sources
variable {queues : List (RingSystem T)} {source other : RapidSource} {queue : RingSystem T} {c : Nat}

theorem pendingEvents_of_kept (hqueue : queues[source.queue]? = some queue)
    (h : Kept queue source.sourceId c) :
    pendingEvents queues source =
      (dataEvents source.sourceId c (queue.log.drop c) : List (Event T E)) := by
  simp only [pendingEvents, hqueue, h.cursor, Option.map_some, Option.getD_some]

theorem dataEvents_cons (sourceId : Nat) (value : T) (messages : List T) :
    (dataEvents sourceId c (value :: messages) : List (Event T E)) =
      .data sourceId (UInt64.ofNat c) value :: dataEvents sourceId (c + 1) messages := by
  rw [dataEvents, List.mapIdx_cons, Nat.add_zero, dataEvents]
  congr 2
  funext i value
  rw [Nat.add_assoc, Nat.add_comm 1 i]

/-- What one read from a queue leaves of all sources: every one keeps what waits,
and those with another id have the same left. -/
structure Advanced (E : Type) (queues queues' : List (RingSystem T)) (ids : List Nat) : Prop where
  waits : ∀ source, Waits queues source → Waits queues' source
  others : ∀ source, Waits queues source → source.sourceId ∉ ids →
    (pendingEvents queues' source : List (Event T E)) = pendingEvents queues source

/-- A source without messages leaves everything as it was. -/
theorem poll_of_empty (hwaits : Waits queues source)
    (hempty : (pendingEvents queues source : List (Event T E)) = []) :
    (source.poll queues : List (RingSystem T) × Option (Event T E)) = (queues, none) := by
  obtain ⟨queue, c, hqueue, hkept⟩ := hwaits
  obtain ⟨slot, hslot, -⟩ := hkept.slot
  rw [pendingEvents_of_kept hqueue hkept, dataEvents, List.mapIdx_eq_nil_iff,
    List.drop_eq_nil_iff] at hempty
  have hsame : queues.set source.queue queue = queues := by
    obtain ⟨hlt, hget⟩ := List.getElem?_eq_some_iff.mp hqueue
    rw [← hget, List.set_getElem_self]
  simp only [RapidSource.poll, hqueue, hslot, hkept.tryRead_idle hempty hslot, RingSystem.received,
    hsame, Option.map_none]

/-- Another reader is on another queue, or elsewhere on the same one. -/
theorem kept_set {slot c' : Nat} {queue' : RingSystem T}
    (hqueue : queues[source.queue]? = some queue)
    (hslot : queue.readers source.sourceId = some slot)
    (hbehind : queue.ring.readSeq slot < queue.ring.writeSeq)
    (hqueue' : queues[other.queue]? = some queue') (h : Kept queue' other.sourceId c')
    (hne : ¬ (other.queue = source.queue ∧ other.sourceId = source.sourceId)) :
    ∃ queue'', (queues.set source.queue (queue.advance source.sourceId slot))[other.queue]? =
      some queue'' ∧ Kept queue'' other.sourceId c' ∧ queue''.log = queue'.log := by
  by_cases hsame : other.queue = source.queue
  · have hid : other.sourceId ≠ source.sourceId := fun hid => hne ⟨hsame, hid⟩
    rw [hsame] at hqueue' ⊢
    obtain rfl := Option.some.inj (hqueue.symm.trans hqueue')
    refine ⟨_, ?_, h.advance_other hslot hbehind hid, rfl⟩
    rw [List.getElem?_set_self (List.getElem?_eq_some_iff.mp hqueue).1]
  · rw [List.getElem?_set_ne (Ne.symm hsame)]
    exact ⟨queue', hqueue', h, rfl⟩

theorem advanced_set {slot : Nat} (hqueue : queues[source.queue]? = some queue)
    (hkept : Kept queue source.sourceId c) (hc : c < queue.log.length)
    (hslot : queue.readers source.sourceId = some slot) :
    Advanced E queues (queues.set source.queue (queue.advance source.sourceId slot))
      [source.sourceId] where
  waits := by
    rintro other ⟨queue', c', hqueue', hkept'⟩
    obtain ⟨_, -, -, -, hbehind⟩ := hkept.tryRead_next hc hslot
    by_cases hsame : other.queue = source.queue ∧ other.sourceId = source.sourceId
    · refine ⟨queue.advance source.sourceId slot, c + 1, ?_, ?_⟩
      · rw [hsame.1, List.getElem?_set_self (List.getElem?_eq_some_iff.mp hqueue).1]
      · rw [hsame.2]
        exact hkept.advance hc hslot
    · obtain ⟨queue'', hget, hkept'', -⟩ := kept_set hqueue hslot hbehind hqueue' hkept' hsame
      exact ⟨queue'', c', hget, hkept''⟩
  others := by
    rintro other ⟨queue', c', hqueue', hkept'⟩ hid
    obtain ⟨_, -, -, -, hbehind⟩ := hkept.tryRead_next hc hslot
    rw [List.mem_singleton] at hid
    obtain ⟨queue'', hget, hkept'', hlog⟩ :=
      kept_set hqueue hslot hbehind hqueue' hkept' fun h => hid h.2
    rw [pendingEvents_of_kept hget hkept'', pendingEvents_of_kept hqueue' hkept', hlog]

/-- A source with messages answers with the first of them and keeps the others. -/
theorem poll_of_pending (hwaits : Waits queues source) {event : Event T E}
    {events : List (Event T E)} (hpending : pendingEvents queues source = event :: events) :
    ∃ queues', source.poll queues = (queues', some event) ∧
      pendingEvents queues' source = events ∧ Advanced E queues queues' [source.sourceId] := by
  obtain ⟨queue, c, hqueue, hkept⟩ := hwaits
  obtain ⟨slot, hslot, -⟩ := hkept.slot
  rw [pendingEvents_of_kept hqueue hkept] at hpending
  have hc : c < queue.log.length := by
    by_contra hge
    rw [List.drop_eq_nil_iff.mpr (Nat.le_of_not_lt hge)] at hpending
    cases hpending
  obtain ⟨value, hvalue, hserved, hload, hbehind⟩ := hkept.tryRead_next hc hslot
  have hlog : queue.log.drop c = value :: queue.log.drop (c + 1) := by
    rw [List.drop_eq_getElem_cons hc]
    congr 1
    exact Option.some.inj ((List.getElem?_eq_getElem hc).symm.trans hvalue)
  rw [hlog, dataEvents_cons, List.cons.injEq] at hpending
  obtain ⟨rfl, rfl⟩ := hpending
  have hseq : queue.ring.served slot = UInt64.ofNat c := by
    rw [← hserved, UInt64.ofNat_toNat]
  refine ⟨queues.set source.queue (queue.advance source.sourceId slot), ?_, ?_,
    advanced_set hqueue hkept hc hslot⟩
  · simp only [RapidSource.poll, hqueue, hslot, Ring.tryRead_behind hbehind, Option.map_some,
      Ring.storeReader_load, hload, ← hseq]
    rfl
  · have hget : (queues.set source.queue (queue.advance source.sourceId slot))[source.queue]? =
        some (queue.advance source.sourceId slot) :=
      List.getElem?_set_self (List.getElem?_eq_some_iff.mp hqueue).1
    rw [pendingEvents_of_kept hget (hkept.advance hc hslot)]
    rfl

theorem pollSources_of_empty {sources : List RapidSource}
    (hwaits : ∀ source ∈ sources, Waits queues source)
    (hempty : ∀ source ∈ sources, (pendingEvents queues source : List (Event T E)) = []) :
    pollSources queues sources = (queues, (none : Option (Event T E))) := by
  induction sources with
  | nil => rfl
  | cons source sources ih =>
    rw [List.forall_mem_cons] at hwaits hempty
    rw [pollSources, poll_of_empty hwaits.1 hempty.1]
    exact ih hwaits.2 hempty.2

/-- The loop answers with the head of all that waits, in the order of the sources. -/
theorem pollSources_of_pending {sources : List RapidSource}
    (hids : (sources.map fun source => source.sourceId).Nodup)
    (hwaits : ∀ source ∈ sources, Waits queues source) {event : Event T E}
    {events : List (Event T E)} (hpending : sources.flatMap (pendingEvents queues) = event :: events) :
    ∃ queues', pollSources queues sources = (queues', some event) ∧
      sources.flatMap (pendingEvents queues') = events ∧
      Advanced E queues queues' (sources.map fun source => source.sourceId) := by
  induction sources with
  | nil => cases hpending
  | cons source sources ih =>
    rw [List.map_cons, List.nodup_cons] at hids
    have hsource := hwaits source List.mem_cons_self
    have hsources : ∀ other ∈ sources, Waits queues other :=
      fun other hother => hwaits other (List.mem_cons_of_mem _ hother)
    rw [List.flatMap_cons] at hpending
    cases hfirst : (pendingEvents queues source : List (Event T E)) with
    | nil =>
      rw [hfirst, List.nil_append] at hpending
      obtain ⟨queues', hpoll, hleft, hadvanced⟩ := ih hids.2 hsources hpending
      refine ⟨queues', ?_, ?_, hadvanced.waits, ?_⟩
      · rw [pollSources, poll_of_empty hsource hfirst, ← hpoll]
      · rw [List.flatMap_cons, hadvanced.others source hsource hids.1, hfirst, hleft, List.nil_append]
      · intro other hother hid
        rw [List.map_cons, List.mem_cons, not_or] at hid
        exact hadvanced.others other hother hid.2
    | cons next rest =>
      rw [hfirst, List.cons_append, List.cons.injEq] at hpending
      obtain ⟨rfl, rfl⟩ := hpending
      obtain ⟨queues', hpoll, hleft, hadvanced⟩ := poll_of_pending hsource hfirst
      refine ⟨queues', ?_, ?_, hadvanced.waits, ?_⟩
      · rw [pollSources, hpoll]
      · rw [List.flatMap_cons, hleft]
        congr 1
        apply List.flatMap_congr
        intro other hother
        apply hadvanced.others other (hsources other hother)
        rw [List.mem_singleton]
        intro hid
        exact hids.1 (hid ▸ List.mem_map_of_mem hother)
      · intro other hother hid
        rw [List.map_cons, List.mem_cons, not_or] at hid
        exact hadvanced.others other hother (by simpa using hid.1)

end Sources

section Runs
variable {r : Reactor T E} {input : PollInput E} {inputs : List (PollInput E)}

/-- Source ids tell the sources apart, and on none more waits than its queue holds. -/
structure Ready (r : Reactor T E) : Prop where
  ids : (r.rapidSources.map fun source => source.sourceId).Nodup
  waits : ∀ source ∈ r.rapidSources, Waits r.queues source

/-- The id of a source is its place in the list. -/
def Numbered (r : Reactor T E) : Prop :=
  (r.rapidSources.map fun source => source.sourceId) = List.range r.rapidSources.length

theorem Numbered.addRapidReader (h : Numbered r) (queue : Nat) : Numbered (r.addRapidReader queue).1 := by
  rw [Numbered, Reactor.addRapidReader, List.map_append, List.length_append, List.length_singleton,
    List.range_succ, h]
  rfl

theorem Numbered.ids (h : Numbered r) : (r.rapidSources.map fun source => source.sourceId).Nodup := by
  rw [h]
  exact List.nodup_range

/-- Everything that waits on the sources, in the order of the sources. -/
def Reactor.backlog (r : Reactor T E) : List (Event T E) :=
  r.rapidSources.flatMap (pendingEvents r.queues)

/-- The control messages that have not been returned, oldest first. -/
def Reactor.controlWaiting (r : Reactor T E) : List Message :=
  r.controlRx.getD [] ++ r.controlSocket.getD []

/-- Since `r` nothing but data has been returned: the channel and the control messages
have only grown, and no timer and no poll has been counted off. -/
structure Untouched (r r' : Reactor T E) (inputs : List (PollInput E)) : Prop where
  channel : r'.channel = r.channel ++ inputs.flatMap (·.external)
  control : r'.controlWaiting = r.controlWaiting ++
    if r.controlSocket.isSome then inputs.flatMap (·.control) else []
  socket : r'.controlSocket.isSome = r.controlSocket.isSome
  timers : r'.timers = r.timers
  pollCount : r'.pollCount = r.pollCount

theorem untouched_refl (r : Reactor T E) : Untouched r r [] := by
  refine ⟨?_, ?_, rfl, rfl, rfl⟩
  · simp
  · simp

theorem Untouched.trans {r' r'' : Reactor T E} {inputs' : List (PollInput E)}
    (h : Untouched r r' inputs) (h' : Untouched r' r'' inputs') :
    Untouched r r'' (inputs ++ inputs') := by
  refine ⟨?_, ?_, ?_, ?_, ?_⟩
  · rw [h'.channel, h.channel, List.flatMap_append, List.append_assoc]
  · rw [h'.control, h.control, h.socket, List.flatMap_append]
    split <;> simp
  · rw [h'.socket, h.socket]
  · rw [h'.timers, h.timers]
  · rw [h'.pollCount, h.pollCount]

theorem arrive_sources (r : Reactor T E) (input : PollInput E) :
    (r.arrive input).queues = r.queues ∧ (r.arrive input).rapidSources = r.rapidSources := by
  unfold Reactor.arrive
  dsimp only
  split
  · exact ⟨rfl, rfl⟩
  · exact ⟨rfl, rfl⟩

theorem ensureControlListener_sources (r : Reactor T E) (spawned : Bool) :
    (r.ensureControlListener spawned).queues = r.queues ∧
      (r.ensureControlListener spawned).rapidSources = r.rapidSources := by
  unfold Reactor.ensureControlListener
  split
  · exact ⟨rfl, rfl⟩
  · split
    · exact ⟨rfl, rfl⟩
    · exact ⟨rfl, rfl⟩

/-- The listener moves messages from the socket behind those it has moved before. -/
theorem untouched_arrive (r : Reactor T E) (input : PollInput E) :
    Untouched r (r.arrive input) [input] := by
  have hone : [input].flatMap (·.external) = input.external ∧
      [input].flatMap (·.control) = input.control := by simp
  rcases r with ⟨queues, sources, socket, channel, rx, timers, count⟩
  cases rx with
  | none =>
    cases socket with
    | none => exact ⟨by rw [hone.1]; rfl, rfl, rfl, rfl, rfl⟩
    | some messages =>
      refine ⟨by rw [hone.1]; rfl, ?_, rfl, rfl, rfl⟩
      rw [hone.2]
      rfl
  | some received =>
    cases socket with
    | none =>
      refine ⟨by rw [hone.1]; rfl, ?_, rfl, rfl, rfl⟩
      simp [Reactor.controlWaiting, Reactor.arrive]
    | some messages =>
      refine ⟨by rw [hone.1]; rfl, ?_, rfl, rfl, rfl⟩
      simp [Reactor.controlWaiting, Reactor.arrive]

theorem untouched_ensureControlListener (r : Reactor T E) (spawned : Bool) :
    Untouched r (r.ensureControlListener spawned) [] := by
  unfold Reactor.ensureControlListener
  split
  · exact untouched_refl r
  · rename_i hlistener
    split
    · refine ⟨by simp, ?_, rfl, rfl, rfl⟩
      have hnone : r.controlRx = none := by simpa using hlistener
      simp [Reactor.controlWaiting, hnone]
    · exact untouched_refl r

/-- A poll with something waiting returns the head of it. -/
theorem step_of_backlog (hready : Ready r) (hshutdown : input.shutdown = false) {event : Event T E}
    {events : List (Event T E)} (hbacklog : r.backlog = event :: events) :
    ∃ r' : Reactor T E, r.step input = (r', some event) ∧ r'.backlog = events ∧ Ready r' ∧
      r'.rapidSources = r.rapidSources ∧ Untouched r r' [input] := by
  obtain ⟨queues', hpoll, hleft, hadvanced⟩ := pollSources_of_pending hready.ids hready.waits hbacklog
  have harrive := arrive_sources r input
  have hlistener := ensureControlListener_sources (r.arrive input) input.spawned
  have huntouched := (untouched_arrive r input).trans
    (untouched_ensureControlListener (r.arrive input) input.spawned)
  refine ⟨{ (r.arrive input).ensureControlListener input.spawned with queues := queues' },
    ?_, ?_, ?_, ?_, ?_⟩
  · simp only [Reactor.step, Reactor.poll, hshutdown, Bool.false_eq_true, if_false, hlistener.1,
      hlistener.2, harrive.1, harrive.2, hpoll]
  · rw [Reactor.backlog, hlistener.2, harrive.2]
    exact hleft
  · refine ⟨?_, ?_⟩
    · rw [hlistener.2, harrive.2]
      exact hready.ids
    · intro source hsource
      rw [hlistener.2, harrive.2] at hsource
      exact hadvanced.waits source (hready.waits source hsource)
  · rw [hlistener.2, harrive.2]
  · exact ⟨huntouched.channel, huntouched.control, huntouched.socket, huntouched.timers,
      huntouched.pollCount⟩

/-- A run no longer than the backlog returns its front and leaves the rest. -/
theorem pollAll_of_backlog (hready : Ready r) (hshutdown : ∀ input ∈ inputs, input.shutdown = false)
    (hfew : inputs.length ≤ r.backlog.length) :
    (r.pollAll inputs).2 = (r.backlog.take inputs.length).map some ∧
      (r.pollAll inputs).1.backlog = r.backlog.drop inputs.length ∧
      Ready (r.pollAll inputs).1 ∧ (r.pollAll inputs).1.rapidSources = r.rapidSources ∧
      Untouched r (r.pollAll inputs).1 inputs := by
  induction inputs generalizing r with
  | nil => exact ⟨rfl, rfl, hready, rfl, untouched_refl r⟩
  | cons input inputs ih =>
    cases hbacklog : r.backlog with
    | nil =>
      rw [hbacklog] at hfew
      cases hfew
    | cons event events =>
      obtain ⟨r', hstep, hleft, hready', hsources, huntouched⟩ :=
        step_of_backlog hready (hshutdown input List.mem_cons_self) hbacklog
      have hfew' : inputs.length ≤ r'.backlog.length := by
        rw [hbacklog] at hfew
        rw [hleft]
        exact Nat.le_of_succ_le_succ hfew
      obtain ⟨hevents, hrest, hready'', hsources', huntouched'⟩ :=
        ih hready' (fun input hinput => hshutdown input (List.mem_cons_of_mem _ hinput)) hfew'
      rw [Reactor.pollAll, hstep]
      refine ⟨?_, ?_, hready'', hsources'.trans hsources, huntouched.trans huntouched'⟩
      · rw [hevents, hleft, List.length_cons, List.take_succ_cons, List.map_cons]
      · rw [hrest, hleft, List.length_cons, List.drop_succ_cons]

end Runs

section Law
variable {r : Reactor T E} {inputs : List (PollInput E)}

def Event.IsData (sourceId : Nat) : Option (Event T E) → Prop
  | some (.data id _ _) => id = sourceId
  | _ => False

/-- How many messages wait on all sources together. -/
def Reactor.total (r : Reactor T E) : Nat :=
  (r.rapidSources.map fun source => (pending r.queues source).length).sum

theorem pendingEvents_eq (queues : List (RingSystem T)) (source : RapidSource) :
    ∃ c, (pendingEvents queues source : List (Event T E)) =
      dataEvents source.sourceId c (pending queues source) := by
  unfold pendingEvents pending
  cases queues[source.queue]? with
  | none => exact ⟨0, rfl⟩
  | some queue =>
    cases hcursor : queue.cursor source.sourceId with
    | none =>
      simp only [hcursor, Option.map_none, Option.getD_none]
      exact ⟨0, rfl⟩
    | some c =>
      simp only [hcursor, Option.map_some, Option.getD_some]
      exact ⟨c, rfl⟩

theorem length_pendingEvents (queues : List (RingSystem T)) (source : RapidSource) :
    (pendingEvents queues source : List (Event T E)).length = (pending queues source).length := by
  obtain ⟨c, hevents⟩ := pendingEvents_eq (E := E) queues source
  rw [hevents, dataEvents, List.length_mapIdx]

theorem length_backlog (r : Reactor T E) : r.backlog.length = r.total := by
  rw [Reactor.backlog, List.length_flatMap, Reactor.total]
  congr 2
  funext source
  exact length_pendingEvents r.queues source

theorem valuesFrom_append (sourceId : Nat) (events events' : List (Option (Event T E))) :
    valuesFrom sourceId (events ++ events') =
      valuesFrom sourceId events ++ valuesFrom sourceId events' := List.filterMap_append

theorem valuesFrom_dataEvents (sourceId id c : Nat) (messages : List T) :
    valuesFrom sourceId ((dataEvents id c messages : List (Event T E)).map some) =
      if id = sourceId then messages else [] := by
  induction messages generalizing c with
  | nil => simp [dataEvents, valuesFrom]
  | cons value messages ih =>
    rw [dataEvents_cons, List.map_cons, ← List.singleton_append, valuesFrom_append, ih]
    by_cases hid : id = sourceId
    · simp [valuesFrom, hid]
    · simp [valuesFrom, hid]

theorem valuesFrom_pendingEvents (sourceId : Nat) (queues : List (RingSystem T))
    (source : RapidSource) :
    valuesFrom sourceId ((pendingEvents queues source : List (Event T E)).map some) =
      if source.sourceId = sourceId then pending queues source else [] := by
  obtain ⟨c, hevents⟩ := pendingEvents_eq (E := E) queues source
  rw [hevents, valuesFrom_dataEvents]

theorem valuesFrom_sources (sourceId : Nat) (queues : List (RingSystem T))
    (sources : List RapidSource) :
    valuesFrom sourceId ((sources.flatMap (pendingEvents queues) : List (Event T E)).map some) =
      (sources.filter (·.sourceId = sourceId)).flatMap (pending queues) := by
  induction sources with
  | nil => rfl
  | cons source sources ih =>
    rw [List.flatMap_cons, List.map_append, valuesFrom_append, ih, valuesFrom_pendingEvents]
    by_cases hid : source.sourceId = sourceId
    · rw [if_pos hid, List.filter_cons_of_pos (by simpa using hid), List.flatMap_cons]
    · rw [if_neg hid, List.filter_cons_of_neg (by simpa using hid), List.nil_append]

/-- Where ids are told apart, what one id hands out is what waits on its source. -/
theorem filter_eq_singleton {sources : List RapidSource}
    (hids : (sources.map fun source => source.sourceId).Nodup) {source : RapidSource}
    (hsource : source ∈ sources) : sources.filter (·.sourceId = source.sourceId) = [source] := by
  induction sources with
  | nil => cases hsource
  | cons first sources ih =>
    rw [List.map_cons, List.nodup_cons] at hids
    rcases List.mem_cons.mp hsource with rfl | hmem
    · have hrest : sources.filter (·.sourceId = source.sourceId) = [] := by
        apply List.filter_eq_nil_iff.mpr
        intro other hother
        have hne : other.sourceId ≠ source.sourceId :=
          fun hid => hids.1 (hid ▸ List.mem_map_of_mem hother)
        simpa using hne
      rw [List.filter_cons_of_pos (by simp), hrest]
    · have hne : first.sourceId ≠ source.sourceId :=
        fun hid => hids.1 (hid ▸ List.mem_map_of_mem hmem)
      rw [List.filter_cons_of_neg (by simpa using hne), ih hids.2 hmem]

theorem not_data_pollChannels (r : Reactor T E) (nowNs : UInt64) (sourceId : Nat) :
    ¬ Event.IsData sourceId (r.pollChannels nowNs).2 := by
  unfold Reactor.pollChannels
  split
  · exact not_false
  · exact not_false
  · unfold Reactor.pollCounted
    dsimp only
    split
    · split
      · exact not_false
      · rw [Reactor.pollTimers]
        cases (r.timers.pollDue nowNs).2 <;> exact not_false
    · exact not_false

/-- With every source empty a poll goes on to the channels. -/
theorem not_data_of_empty (hready : Ready r) (hempty : r.backlog = []) (input : PollInput E)
    (sourceId : Nat) : ¬ Event.IsData sourceId (r.step input).2 := by
  rw [Reactor.backlog, List.flatMap_eq_nil_iff] at hempty
  have harrive := arrive_sources r input
  have hlistener := ensureControlListener_sources (r.arrive input) input.spawned
  unfold Reactor.step Reactor.poll
  split
  · exact not_false
  · simp only [hlistener.1, hlistener.2, harrive.1, harrive.2,
      pollSources_of_empty hready.waits hempty]
    exact not_data_pollChannels _ _ _

theorem pending_eq_nil_iff (queues : List (RingSystem T)) (source : RapidSource) :
    pending queues source = [] ↔ (pendingEvents queues source : List (Event T E)) = [] := by
  rw [← List.length_eq_zero_iff, ← List.length_eq_zero_iff, length_pendingEvents]

theorem isData_of_mem_backlog {event : Event T E} (h : event ∈ r.backlog) :
    ∃ source ∈ r.rapidSources, Event.IsData source.sourceId (some event) := by
  obtain ⟨source, hsource, hevent⟩ := List.mem_flatMap.mp h
  obtain ⟨c, hevents⟩ := pendingEvents_eq (E := E) r.queues source
  rw [hevents, dataEvents] at hevent
  obtain ⟨i, hi, rfl⟩ := List.mem_mapIdx.mp hevent
  exact ⟨source, hsource, rfl⟩

/-- As many polls as messages wait answer with data and nothing else is touched; when
that many have been made every source is empty, each has handed out its messages in
commit order, and no further poll answers with data. -/
theorem drains_in_order (r : Reactor T E) (hready : Ready r) (inputs : List (PollInput E))
    (hshutdown : ∀ input ∈ inputs, input.shutdown = false) :
    (inputs.length ≤ r.total →
      (∀ event ∈ (r.pollAll inputs).2, ∃ source ∈ r.rapidSources,
        Event.IsData source.sourceId event) ∧
      Untouched r (r.pollAll inputs).1 inputs) ∧
    (inputs.length = r.total →
      (∀ source ∈ r.rapidSources,
        valuesFrom source.sourceId (r.pollAll inputs).2 = pending r.queues source ∧
        pending (r.pollAll inputs).1.queues source = []) ∧
      ∀ input sourceId, ¬ Event.IsData sourceId ((r.pollAll inputs).1.step input).2) := by
  constructor
  · intro hfew
    rw [← length_backlog] at hfew
    obtain ⟨hevents, -, -, -, huntouched⟩ := pollAll_of_backlog hready hshutdown hfew
    refine ⟨?_, huntouched⟩
    intro event hevent
    rw [hevents] at hevent
    obtain ⟨data, hdata, rfl⟩ := List.mem_map.mp hevent
    exact isData_of_mem_backlog (List.mem_of_mem_take hdata)
  · intro hall
    rw [← length_backlog] at hall
    obtain ⟨hevents, hleft, hready', hsources, -⟩ :=
      pollAll_of_backlog hready hshutdown (Nat.le_of_eq hall)
    rw [hall, List.drop_length] at hleft
    rw [hall, List.take_length] at hevents
    refine ⟨?_, not_data_of_empty hready' hleft⟩
    intro source hsource
    constructor
    · rw [hevents, Reactor.backlog, valuesFrom_sources, filter_eq_singleton hready.ids hsource,
        List.flatMap_singleton]
    · rw [pending_eq_nil_iff (E := E)]
      rw [Reactor.backlog, hsources, List.flatMap_eq_nil_iff] at hleft
      exact hleft source hsource

def emptyQueue : RingSystem UInt64 :=
  RingSystem.start ⟨2, 0, [freeReader], Vector.replicate _ 0, Nat.two_pos⟩ ⟨0, false⟩

/-- Two readers on two queues, and the queues of both written to twice. -/
def twoSources : Reactor UInt64 Unit :=
  let r : Reactor UInt64 Unit := ((Reactor.new [emptyQueue, emptyQueue]).addRapidReader 0).1
  let r := (r.addRapidReader 1).1
  { r with
    queues := r.queues.map fun queue => (queue.write 7).write 8
    channel := [()] }

def quiet : PollInput Unit := ⟨false, [], [], 0, false, 0⟩

theorem drains_in_order_two_sources :
    (valuesFrom 0 (twoSources.pollAll (List.replicate 4 quiet)).2 = [7, 8] ∧
      valuesFrom 1 (twoSources.pollAll (List.replicate 4 quiet)).2 = [7, 8]) ∧
    (twoSources.pollAll (List.replicate 4 quiet)).1.channel = [()] := by
  have hids : Numbered twoSources := by
    have hnew : ∀ queues, Numbered (Reactor.new queues : Reactor UInt64 Unit) := fun _ => rfl
    exact ((hnew _).addRapidReader 0).addRapidReader 1
  have hinv : ∀ is : List (RingStep UInt64),
      (Transition.run RingSystem.step emptyQueue is).log.length < 2 ^ 64 →
      (Transition.run RingSystem.step emptyQueue is).Inv := by
    intro is hfew
    have hcreate : Ring.create 2 1 (0 : UInt64) =
        .ok (⟨2, 0, [freeReader], Vector.replicate _ 0, Nat.two_pos⟩, ⟨0, false⟩) := rfl
    exact (RingSystem.inv_start hcreate).run hfew is (List.prefix_refl is)
  have hwaits : ∀ source ∈ twoSources.rapidSources, Waits twoSources.queues source := by
    have hsources : twoSources.rapidSources = [⟨0, 0⟩, ⟨1, 1⟩] := rfl
    rw [hsources, List.forall_mem_cons, List.forall_mem_singleton]
    constructor
    · exact ⟨_, 0, rfl,
        kept_of_quiet (hinv [.connect 0, .write 7, .write 8] (by decide)) rfl rfl (by decide)⟩
    · exact ⟨_, 0, rfl,
        kept_of_quiet (hinv [.connect 1, .write 7, .write 8] (by decide)) rfl rfl (by decide)⟩
  have htotal : twoSources.total = 4 := by decide
  have hdrained := drains_in_order twoSources ⟨hids.ids, hwaits⟩ (List.replicate 4 quiet)
    (fun input hinput => by rw [List.eq_of_mem_replicate hinput]; rfl)
  rw [List.length_replicate, htotal] at hdrained
  obtain ⟨-, huntouched⟩ := hdrained.1 (Nat.le_refl 4)
  obtain ⟨hsources, -⟩ := hdrained.2 rfl
  refine ⟨⟨?_, ?_⟩, huntouched.channel⟩
  · exact (hsources ⟨0, 0⟩ (by decide)).1
  · exact (hsources ⟨1, 1⟩ (by decide)).1

end Law

end Nnxt.Polling
