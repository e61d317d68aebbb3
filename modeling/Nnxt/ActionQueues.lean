import Nnxt.QueueAddress
import Nnxt.OwnershipRuns
import Nnxt.ActorRegistry
import Nnxt.TradeGatewayRunner

/-!
# The action queue of a strategy and its gateway

`action_queue` joins two ids with slashes, and the ids may hold slashes of their
own: the master takes any text as an id and `Address::new` any number of
segments. Two pairs may share a path, and `write_to` for the one unlinks the queue
of the other.
-/

namespace Nnxt.ActionQueues

set_option autoImplicit false

open HashMap QueueAddress SegmentNames Transition WriterOwnership

/-- The accepted address, as the names of segments know it. -/
def segmentAddress (addr : QueueAddress.Address) : SegmentNames.Address := ⟨addr.path⟩

/-- `write_to` at an address leaves every queue of another pair under its name. -/
def SparesOthers (strategyId gatewayId : String) (addr : QueueAddress.Address) : Prop :=
  ∀ (strategyId' gatewayId' : String) (addr' : QueueAddress.Address),
    ¬ (strategyId' = strategyId ∧ gatewayId' = gatewayId) →
    Address.new (actionQueue strategyId' gatewayId') = .ok addr' →
    ∀ (platform : Platform) (is : List Step) (context : Nat) (element : ElementLayout)
      (capacity : Nat) (calls : SystemCalls) (segment : Segment),
      (run (step platform) start is).names.lookup (platform.nameOf (segmentAddress addr')) =
        some segment →
      ((run (step platform) start is).writeTo platform context (segmentAddress addr) element capacity
          calls).1.names.lookup (platform.nameOf (segmentAddress addr')) = some segment

/-- No other pair has the path. -/
def UniquePath (strategyId gatewayId : String) : Prop :=
  ∀ strategyId' gatewayId' : String,
    actionQueue strategyId gatewayId = actionQueue strategyId' gatewayId' →
    strategyId = strategyId' ∧ gatewayId = gatewayId'

section Paths
variable {strategyId gatewayId strategyId' gatewayId' : String}

theorem splitSlash_of_notMem {id : String} (h : '/' ∉ id.toList) : splitSlash id = [id] := by
  have hjoin : "/".intercalate [id] = id := String.intercalate_singleton
  have hsplit : splitSlash ("/".intercalate [id]) = [id] :=
    splitSlash_intercalate (List.cons_ne_nil _ _) (by simpa using h)
  rwa [hjoin] at hsplit

theorem splitSlash_actionQueue (strategyId gatewayId : String) :
    splitSlash (actionQueue strategyId gatewayId) =
      "action" :: (splitSlash strategyId ++ splitSlash gatewayId) := by
  rw [actionQueue, queuePath, splitSlash_append, splitSlash_append,
    splitSlash_of_notMem (by decide), List.singleton_append, List.cons_append]

/-- Two ids without slashes are the two segments behind the first. -/
theorem ids_of_path (hstrategy : '/' ∉ strategyId.toList) (hgateway : '/' ∉ gatewayId.toList)
    (h : actionQueue strategyId gatewayId = actionQueue strategyId' gatewayId') :
    strategyId = strategyId' ∧ gatewayId = gatewayId' := by
  have hsplit := congrArg splitSlash h
  rw [splitSlash_actionQueue, splitSlash_actionQueue, splitSlash_of_notMem hstrategy,
    splitSlash_of_notMem hgateway, List.cons.injEq, List.singleton_append] at hsplit
  obtain ⟨first, hfirst⟩ := List.exists_cons_of_ne_nil (splitSlash_ne_nil strategyId')
  obtain ⟨rest, hfirst⟩ := hfirst
  rw [hfirst, List.cons_append, List.cons.injEq] at hsplit
  obtain ⟨-, hhead, htail⟩ := hsplit
  -- the last segment is the gateway's, so none is left for the strategy
  have hrest : rest = [] := by
    have hpos := List.length_pos_of_ne_nil (splitSlash_ne_nil gatewayId')
    have hlength := congrArg List.length htail
    rw [List.length_singleton, List.length_append] at hlength
    exact List.length_eq_zero_iff.mp (by omega)
  subst hrest
  constructor
  · apply splitSlash_inj
    rw [splitSlash_of_notMem hstrategy, hfirst, hhead]
  · apply splitSlash_inj
    rw [splitSlash_of_notMem hgateway, htail, List.nil_append]

theorem exists_halves {id : String} (h : '/' ∈ id.toList) :
    ∃ before after : String, id = before ++ "/" ++ after := by
  obtain ⟨before, after, hparts⟩ := List.append_of_mem h
  refine ⟨String.ofList before, String.ofList after, ?_⟩
  apply String.toList_inj.mp
  rw [hparts]
  simp

/-- A slash in an id can be taken for the one between the ids. -/
theorem exists_other_pair (h : '/' ∈ strategyId.toList ∨ '/' ∈ gatewayId.toList) :
    ∃ strategyId' gatewayId', actionQueue strategyId gatewayId = actionQueue strategyId' gatewayId' ∧
      strategyId ≠ strategyId' := by
  rcases h with hstrategy | hgateway
  · obtain ⟨before, after, rfl⟩ := exists_halves hstrategy
    refine ⟨before, after ++ "/" ++ gatewayId, ?_, ?_⟩
    · simp only [actionQueue, queuePath, String.append_assoc]
    · intro he
      have hlength := congrArg String.length he
      simp only [String.length_append] at hlength
      have hslash : "/".length = 1 := rfl
      omega
  · obtain ⟨before, after, rfl⟩ := exists_halves hgateway
    refine ⟨strategyId ++ "/" ++ before, after, ?_, ?_⟩
    · simp only [actionQueue, queuePath, String.append_assoc]
    · intro he
      have hlength := congrArg String.length he
      simp only [String.length_append] at hlength
      have hslash : "/".length = 1 := rfl
      omega

end Paths

section Names
variable {platform : Platform} {s : State} {addr : SegmentNames.Address} {name : Name}

/-- The gateway runner asks the same of a path as `Address::new`. -/
theorem addressAccepted_iff (path : String) :
    TradeGatewayRunner.addressAccepted path = true ↔ ∃ addr, Address.new path = .ok addr := by
  have haccepted : (∃ addr, Address.new path = .ok addr) ↔ Grammatical path := by
    constructor
    · intro h
      obtain ⟨addr, haddr⟩ := h
      exact (new_eq_ok_iff.mp haddr).1
    · intro h
      exact ⟨_, new_eq_ok_iff.mpr ⟨h, rfl⟩⟩
  have hsegment : ∀ seg : List Char,
      (seg ≠ [] && seg ≠ ['.'] && seg ≠ ['.', '.'] &&
        seg.all fun ch => ch.isAlphanum || ch = '-' || ch = '_') = true ↔
      NameSegment (String.ofList seg) := by
    intro seg
    have hchars : (seg.all fun ch => ch.isAlphanum || ch = '-' || ch = '_') = true ↔
        ∀ ch ∈ seg, NameChar ch := by
      rw [List.all_eq_true]
      exact forall₂_congr fun ch _ => isNameChar_iff ch
    have hempty : String.ofList seg ≠ "" ↔ seg ≠ [] := by
      rw [Ne, ← String.toList_inj, String.toList_ofList, String.toList_empty]
    rw [NameSegment, hempty, String.toList_ofList, Bool.and_eq_true, hchars]
    simp only [Bool.and_eq_true, decide_eq_true_eq]
    constructor
    · intro h
      exact ⟨h.1.1.1, h.2⟩
    · intro h
      have hdot : '.' ∉ seg := fun hmem => not_nameChar_dot (h.2 '.' hmem)
      refine ⟨⟨⟨h.1, ?_⟩, ?_⟩, h.2⟩
      · exact fun he => hdot (he ▸ List.mem_cons_self)
      · exact fun he => hdot (he ▸ List.mem_cons_self)
  rw [haccepted, grammatical_iff_split, TradeGatewayRunner.addressAccepted, List.all_eq_true,
    splitSlash, List.forall_mem_map]
  exact forall₂_congr fun seg _ => hsegment seg

theorem lookup_created_ne {names : Names} {id : Nat}
    {outcome : Names × Except RapidError SegmentNames.Writer}
    (h : Created platform names addr id outcome) (hne : name ≠ platform.nameOf addr) :
    outcome.1.lookup name = names.lookup name := by
  cases h with
  | nothing names' error same => exact same name
  | empty error free => rw [lookup_insert_eq, if_neg hne]
  | writer names' size nonempty free named => rw [named, if_neg hne]

theorem lookup_create_ne (hne : name ≠ platform.nameOf addr) (element : ElementLayout)
    (capacity : Nat) (calls : SystemCalls) :
    (s.create platform addr element capacity calls).1.names.lookup name = s.names.lookup name := by
  have hcases : Created platform s.names addr s.next
      (createWithReaders platform s.names addr s.next element capacity defaultMaxReaders calls) :=
    createWithReaders_cases element capacity defaultMaxReaders calls
  have hcreated := lookup_created_ne hcases hne
  rw [← hcreated, State.create]
  generalize createWithReaders platform s.names addr s.next element capacity defaultMaxReaders calls
    = outcome
  rcases outcome with ⟨names, error | writer⟩
  · rfl
  · rfl

/-- A queue that `write_to` unlinks or creates has the name of its address. -/
theorem lookup_writeTo_ne (h : Inv platform s) (hne : name ≠ platform.nameOf addr) (context : Nat)
    (element : ElementLayout) (capacity : Nat) (calls : SystemCalls) :
    (s.writeTo platform context addr element capacity calls).1.names.lookup name =
      s.names.lookup name := by
  have hcreated : ((s.cleanup platform addr).1.create platform addr element capacity
      calls).1.names.lookup name = s.names.lookup name := by
    rw [lookup_create_ne hne, h.lookup_cleanup, if_neg hne]
  exact of_writeTo (P := fun t => t.names.lookup name = s.names.lookup name) rfl hcreated
    fun t held ht => ht

/-- Where nothing is refused, `write_to` leaves a new segment under its name. -/
theorem writeTo_of_unrefused (h : Inv platform s) {context : Nat} (hheld : (context, addr) ∉ s.held)
    {element : ElementLayout} {capacity : Nat} {layout : Layout}
    (hlayout : layoutFor element capacity defaultMaxReaders = .ok layout) :
    ∃ names live,
      s.writeTo platform context addr element capacity ⟨none, none, none⟩ =
        (⟨names, s.next + 1, live, (context, addr) :: s.held⟩, .ok ()) ∧
      names.lookup (platform.nameOf addr) = some ⟨s.next, layout.totalSize⟩ := by
  have hfree : (SegmentNames.cleanup platform s.names addr).1.lookup (platform.nameOf addr) = none := by
    rw [h.placed.lookup_cleanup, if_pos rfl]
  have hopen : openCreateShm platform (SegmentNames.cleanup platform s.names addr).1 addr s.next none =
      .ok ((SegmentNames.cleanup platform s.names addr).1.insert (platform.nameOf addr) ⟨s.next, 0⟩,
        platform.accepts addr) := by
    rcases @openCreateShm_cases platform (SegmentNames.cleanup platform s.names addr).1 addr s.next
      none with ⟨hwhy, _⟩ | ⟨_, _, hopen⟩
    · exact (hwhy.elim (fun h => h rfl) fun h => h hfree).elim
    · exact hopen
  simp only [State.writeTo, if_neg hheld, State.create, State.cleanup, createWithReaders, hlayout,
    hopen, State.created]
  refine ⟨_, _, rfl, ?_⟩
  rw [← Platform.nameOf, AList.lookup_insert]

end Names

section Law
variable {strategyId gatewayId : String} {addr : QueueAddress.Address}

theorem path_of_accepted {path : String} (h : Address.new path = .ok addr) : addr.path = path := by
  rw [(new_eq_ok_iff.mp h).2]

theorem reached_inv (platform : Platform) (is : List Step) :
    Inv platform (run (step platform) start is) :=
  always_of_step (fun _ i h => h.step i) inv_start is is (List.prefix_refl is)

/-- A pair with the same path loses its queue: `write_to` puts a new one in its place. -/
theorem unique_of_spares (haddr : Address.new (actionQueue strategyId gatewayId) = .ok addr)
    (h : SparesOthers strategyId gatewayId addr) {strategyId' gatewayId' : String}
    (hpath : actionQueue strategyId gatewayId = actionQueue strategyId' gatewayId') :
    strategyId' = strategyId ∧ gatewayId' = gatewayId := by
  by_contra hother
  let platform : Platform := ⟨fun _ => true⟩
  let element : ElementLayout := ⟨8, 8, by decide⟩
  have hlayout : layoutFor element 1 defaultMaxReaders = .ok ⟨64, 192, 200⟩ := by decide
  -- first the queue of the other pair, then this one, from a context of its own
  let first : Step := .writeTo 0 (segmentAddress addr) element 1 ⟨none, none, none⟩
  have hstart : (0, segmentAddress addr) ∉ (run (step platform) start []).held := List.not_mem_nil
  obtain ⟨names, live, hfirst, hnamed⟩ :=
    writeTo_of_unrefused (reached_inv platform []) hstart hlayout
  have hstate : run (step platform) start [first] = ⟨names, 1, live, [(0, segmentAddress addr)]⟩ :=
    congrArg Prod.fst hfirst
  have hunheld : (1, segmentAddress addr) ∉ (run (step platform) start [first]).held := by
    rw [hstate]
    simp
  obtain ⟨names', live', hsecond, hnamed'⟩ := writeTo_of_unrefused (reached_inv platform [first])
    hunheld hlayout
  have hspared := h strategyId' gatewayId' addr hother (hpath ▸ haddr) platform [first] 1 element 1
    ⟨none, none, none⟩ ⟨0, 200⟩ (by rw [hstate]; exact hnamed)
  rw [hsecond, hnamed', hstate] at hspared
  cases hspared

theorem spares_of_unique (haddr : Address.new (actionQueue strategyId gatewayId) = .ok addr)
    (hunique : UniquePath strategyId gatewayId) :
    SparesOthers strategyId gatewayId addr := by
  intro strategyId' gatewayId' addr' hother haddr' platform is context element capacity calls
    segment hsegment
  rw [lookup_writeTo_ne (reached_inv platform is) ?_, hsegment]
  intro hname
  have haddress := Platform.nameOf_inj hname
  have hpath : addr'.path = addr.path := congrArg SegmentNames.Address.path haddress
  rw [path_of_accepted haddr, path_of_accepted haddr'] at hpath
  obtain ⟨rfl, rfl⟩ := hunique _ _ hpath.symm
  exact hother ⟨rfl, rfl⟩

/-- The master checks nothing of an id: an actor without queues is always taken in. -/
theorem register_bare (registry : ActorRegistry) (actorId actorType : String) (nowNs : UInt64) :
    (registry.register ⟨actorId, actorType, []⟩ nowNs).2 = .ok () := rfl

/-- A pair whose path is accepted has the path for itself, and its `write_to`
destroys no queue of another pair, iff neither of its ids has a slash in it. -/
theorem own_queue_iff_no_slash (strategyId gatewayId : String) (addr : QueueAddress.Address)
    (haddr : Address.new (actionQueue strategyId gatewayId) = .ok addr) :
    (UniquePath strategyId gatewayId ↔ '/' ∉ strategyId.toList ∧ '/' ∉ gatewayId.toList) ∧
    (SparesOthers strategyId gatewayId addr ↔
      '/' ∉ strategyId.toList ∧ '/' ∉ gatewayId.toList) := by
  have hunique : UniquePath strategyId gatewayId ↔
      '/' ∉ strategyId.toList ∧ '/' ∉ gatewayId.toList := by
    constructor
    · intro h
      by_contra hslash
      obtain ⟨strategyId', gatewayId', hpath, hne⟩ :=
        exists_other_pair (Decidable.or_iff_not_not_and_not.mpr hslash)
      exact hne (h strategyId' gatewayId' hpath).1
    · exact fun h _ _ hpath => ids_of_path h.1 h.2 hpath
  refine ⟨hunique, ?_⟩
  rw [← hunique]
  constructor
  · intro h strategyId' gatewayId' hpath
    have hsame := unique_of_spares haddr h hpath
    exact ⟨hsame.1.symm, hsame.2.symm⟩
  · exact spares_of_unique haddr

theorem own_queue_iff_no_slash_plain :
    UniquePath "alpha" "sim" ∧
      SparesOthers "alpha" "sim"
        ⟨"action/alpha/sim", "/nnxt/action/alpha/sim", ⟨"/dev/shm/nnxt/action/alpha/sim"⟩⟩ := by
  have h := own_queue_iff_no_slash "alpha" "sim"
    ⟨"action/alpha/sim", "/nnxt/action/alpha/sim", ⟨"/dev/shm/nnxt/action/alpha/sim"⟩⟩ (by decide)
  exact ⟨h.1.mpr (by decide), h.2.mpr (by decide)⟩

/-- The strategy `a/b` at the gateway `c` and the strategy `a` at the gateway `b/c`
are four actors the master has taken in, and one path. -/
theorem slash_shares_path :
    ((ActorRegistry.new.register ⟨"a/b", "strategy", []⟩ 0).2 = .ok () ∧
      (ActorRegistry.new.register ⟨"b/c", "trade", []⟩ 0).2 = .ok ()) ∧
    actionQueue "a/b" "c" = actionQueue "a" "b/c" ∧
    (∃ addr, Address.new (actionQueue "a/b" "c") = .ok addr ∧ ¬ SparesOthers "a/b" "c" addr) ∧
    ¬ ∀ s g s' g' : String, actionQueue s g = actionQueue s' g' → s = s' ∧ g = g' := by
  have hpath : actionQueue "a/b" "c" = actionQueue "a" "b/c" := by decide
  have haddr : Address.new (actionQueue "a/b" "c") =
      .ok ⟨"action/a/b/c", "/nnxt/action/a/b/c", ⟨"/dev/shm/nnxt/action/a/b/c"⟩⟩ := by decide
  refine ⟨⟨register_bare _ _ _ _, register_bare _ _ _ _⟩, hpath, ⟨_, haddr, ?_⟩, ?_⟩
  · intro h
    have hsame := unique_of_spares haddr h hpath
    exact absurd hsame.1 (by decide)
  · intro h
    exact absurd (h _ _ _ _ hpath).1 (by decide)

end Law

end Nnxt.ActionQueues
