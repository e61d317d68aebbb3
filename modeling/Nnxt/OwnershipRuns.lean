import Nnxt.WriterOwnership

/-!
# Runs in which a drop removes no other writer's name

A name is kept for the last queue created under it. As long as no older writer of
the address is dropped before that queue is gone, every writer whose address
nobody has cleaned up is found by its name.
-/

namespace Nnxt.WriterOwnership

set_option autoImplicit false

open HashMap SegmentNames Transition

/-- The name of a writer that has not been cleaned up denotes its segment. -/
def Named (platform : Platform) (s : State) : Prop :=
  ∀ id live, s.live.lookup id = some live → live.cleaned = false →
    ∃ segment, s.names.lookup (platform.nameOf live.writer.addr) = some segment ∧
      segment.size ≠ 0 ∧ segment.id = id

section Steps
variable {platform : Platform} {s : State} {addr : Address}
  {outcome : Names × Except RapidError SegmentNames.Writer}

theorem Inv.reachable_iff (h : Inv platform s) : Reachable platform s ↔ Named platform s := by
  refine forall₄_congr fun id live _ _ => exists_congr fun segment => ?_
  rw [h.placed.connect_iff, and_assoc]

theorem Named.nameOf_ne (hn : Named platform s) {id : Nat} {live : Live}
    (hlive : s.live.lookup id = some live) (hcleaned : live.cleaned = false)
    (hfree : s.names.lookup (platform.nameOf addr) = none) :
    platform.nameOf live.writer.addr ≠ platform.nameOf addr := by
  intro heq
  obtain ⟨segment, hname, -⟩ := hn id live hlive hcleaned
  rw [heq, hfree] at hname
  cases hname

/-- Nothing is created under a name that is taken. -/
theorem Named.created (hn : Named platform s)
    (hout : Created platform s.names addr s.next outcome) :
    Named platform (s.created outcome).1 := by
  cases hout with
  | nothing names' error same =>
    intro id live hlive hcleaned
    obtain ⟨segment, hname, hrest⟩ := hn id live hlive hcleaned
    exact ⟨segment, (same _).trans hname, hrest⟩
  | empty error free =>
    intro id live hlive hcleaned
    obtain ⟨segment, hname, hrest⟩ := hn id live hlive hcleaned
    have hne := hn.nameOf_ne hlive hcleaned free
    exact ⟨segment, (AList.lookup_insert_ne hne).trans hname, hrest⟩
  | writer names' size nonempty free named =>
    intro id live hlive hcleaned
    rcases lookup_live_insert hlive with ⟨rfl, rfl⟩ | hlive
    · exact ⟨⟨s.next, size⟩, (named _).trans (if_pos rfl), nonempty, rfl⟩
    · obtain ⟨segment, hname, hrest⟩ := hn id live hlive hcleaned
      have hne := hn.nameOf_ne hlive hcleaned free
      exact ⟨segment, (named _).trans ((if_neg hne).trans hname), hrest⟩

theorem Named.create (hn : Named platform s) (addr : Address) (element : ElementLayout)
    (capacity : Nat) (calls : SystemCalls) :
    Named platform (s.create platform addr element capacity calls).1 :=
  hn.created (createWithReaders_cases element capacity defaultMaxReaders calls)

theorem Named.cleanup (hn : Named platform s) (h : Inv platform s) (addr : Address) :
    Named platform (s.cleanup platform addr).1 := by
  intro id live hlive hcleaned
  obtain ⟨before, hbefore, rfl⟩ := lookup_cleanup_live hlive
  have haddr : before.writer.addr ≠ addr := by
    intro heq
    rw [State.cleanedAt, if_pos heq] at hcleaned
    cases hcleaned
  rw [State.cleanedAt, if_neg haddr] at hcleaned ⊢
  obtain ⟨segment, hname, hrest⟩ := hn id before hbefore hcleaned
  refine ⟨segment, ?_, hrest⟩
  rw [h.lookup_cleanup, if_neg fun heq => haddr (Platform.nameOf_inj heq)]
  exact hname

theorem Named.drop (hn : Named platform s) (h : Inv platform s) {id : Nat}
    (hlast : LastOfAddress s (.drop id)) : Named platform (s.drop platform id) := by
  cases hdropped : s.live.lookup id with
  | none =>
    rw [drop_of_dropped hdropped]
    exact hn
  | some dropped =>
    intro other live hlive hcleaned
    obtain ⟨hne, hlive⟩ := live_of_drop hlive
    obtain ⟨segment, hname, hrest⟩ := hn other live hlive hcleaned
    refine ⟨segment, ?_, hrest⟩
    rw [h.lookup_drop hdropped, if_neg]
    · exact hname
    · intro heq
      exact hne (hlast dropped hdropped other live hlive (Platform.nameOf_inj heq) hcleaned)

theorem Named.step (hn : Named platform s) (h : Inv platform s) {i : Step}
    (hlast : LastOfAddress s i) : Named platform (step platform s i) := by
  cases i with
  | create addr element capacity calls =>
    exact hn.create addr element capacity calls
  | writeTo context addr element capacity calls =>
    have hcreated := (hn.cleanup h addr).create addr element capacity calls
    exact of_writeTo hn hcreated fun _ _ ht => ht
  | cleanup addr => exact hn.cleanup h addr
  | drop id => exact hn.drop h hlast

/-- Behind the name of a dropped writer there is nothing but its own segment. -/
theorem Inv.removes_own (h : Inv platform s) {i : Step} (hlast : LastOfAddress s i) :
    RemovesOwn platform s i := by
  cases i with
  | drop id =>
    intro name segment hname hsize hother
    cases hdropped : s.live.lookup id with
    | none =>
      rw [drop_of_dropped hdropped]
      exact hname
    | some dropped =>
      obtain ⟨live, hlive, hcleaned, hn⟩ := h.owned name segment hname hsize
      rw [h.lookup_drop hdropped, if_neg]
      · exact hname
      · intro heq
        have haddr := Platform.nameOf_inj (hn.symm.trans heq)
        exact hother (hlast dropped hdropped segment.id live hlive haddr hcleaned)
  | _ => trivial

/-- A writer dropped before a later one of its address takes its name away. -/
theorem Inv.last_of_removes_own (h : Inv platform s) (hn : Named platform s) {i : Step}
    (hown : RemovesOwn platform s i) : LastOfAddress s i := by
  cases i with
  | drop id =>
    intro dropped hdropped other live hlive haddr hcleaned
    obtain ⟨segment, hname, hsize, hid⟩ := hn other live hlive hcleaned
    by_contra hne
    have hkept := hown _ segment hname hsize (hid ▸ hne)
    rw [h.lookup_drop hdropped, haddr, if_pos rfl] at hkept
    cases hkept
  | _ => trivial

end Steps

/-- At most one writer lives for each address. -/
def Alone (s : State) : Prop :=
  ∀ id live other live', s.live.lookup id = some live → s.live.lookup other = some live' →
    live'.writer.addr = live.writer.addr → other = id

section Alone
variable {platform : Platform} {s : State} {addr : Address}

theorem Alone.create (ha : Alone s) (element : ElementLayout) (capacity : Nat) (calls : SystemCalls)
    (hnone : ∀ id live, s.live.lookup id = some live → live.writer.addr ≠ addr) :
    Alone (s.create platform addr element capacity calls).1 := by
  have hout := @createWithReaders_cases platform s.names addr s.next element capacity
    defaultMaxReaders calls
  unfold State.create
  generalize createWithReaders platform s.names addr s.next element capacity defaultMaxReaders calls =
    outcome at hout
  cases hout with
  | nothing => exact ha
  | empty => exact ha
  | writer names' size nonempty free named =>
    intro id live other live' hlive hlive' haddr
    rcases lookup_live_insert hlive with ⟨rfl, rfl⟩ | hlive
    · rcases lookup_live_insert hlive' with ⟨hother, -⟩ | hlive'
      · exact hother
      · exact absurd haddr (hnone other live' hlive')
    · rcases lookup_live_insert hlive' with ⟨rfl, rfl⟩ | hlive'
      · exact absurd haddr.symm (hnone id live hlive)
      · exact ha id live other live' hlive hlive' haddr

theorem Alone.cleanup (ha : Alone s) (addr : Address) : Alone (s.cleanup platform addr).1 := by
  intro id live other live' hlive hlive' haddr
  obtain ⟨before, hbefore, rfl⟩ := lookup_cleanup_live hlive
  obtain ⟨before', hbefore', rfl⟩ := lookup_cleanup_live hlive'
  rw [cleanedAt_addr, cleanedAt_addr] at haddr
  exact ha id before other before' hbefore hbefore' haddr

theorem Alone.drop (ha : Alone s) (id : Nat) : Alone (s.drop platform id) := by
  intro first live other live' hlive hlive' haddr
  exact ha first live other live' (live_of_drop hlive).2 (live_of_drop hlive').2 haddr

theorem Alone.step (ha : Alone s) {i : Step} (halone : CreatesAlone s i) : Alone (step platform s i) := by
  cases i with
  | create addr element capacity calls => exact ha.create element capacity calls halone
  | writeTo context addr element capacity calls =>
    have hnone : ∀ id live, (s.cleanup platform addr).1.live.lookup id = some live →
        live.writer.addr ≠ addr := by
      intro id live hlive
      obtain ⟨before, hbefore, rfl⟩ := lookup_cleanup_live hlive
      rw [cleanedAt_addr]
      exact halone id before hbefore
    have hcreated : Alone ((s.cleanup platform addr).1.create platform addr element capacity calls).1 :=
      (ha.cleanup addr).create element capacity calls hnone
    exact of_writeTo ha hcreated fun _ _ ht => ht
  | cleanup addr => exact ha.cleanup addr
  | drop id => exact ha.drop id

theorem Alone.last (ha : Alone s) (i : Step) : LastOfAddress s i := by
  cases i with
  | drop id =>
    intro dropped hdropped other live hlive haddr _
    exact ha id dropped other live hdropped hlive haddr
  | _ => trivial

end Alone

section Runs
variable {platform : Platform} {is : List Step}

theorem always_named (h : Guarded (step platform) LastOfAddress start is) :
    Always (step platform) (fun s => Inv platform s ∧ Named platform s) start is := by
  refine always_of_guarded (fun s i hs hlast => ?_) ⟨inv_start, fun _ _ h => by cases h⟩ h
  exact ⟨hs.1.step i, hs.2.step hs.1 hlast⟩

theorem guarded_last_of_alone (h : Guarded (step platform) CreatesAlone start is) :
    Guarded (step platform) LastOfAddress start is := by
  have halone : Always (step platform) Alone start is :=
    always_of_guarded (fun s i ha hi => ha.step hi) (fun _ _ _ _ h => by cases h) h
  intro js i hpre
  exact (halone js ((List.prefix_append js [i]).trans hpre)).last i

end Runs

/-- The drops of a run spare the names of other writers, and the queue of every
writer stays reachable, exactly when no writer is dropped before a later one of
its address; runs that create a queue only where no writer lives are such runs. -/
theorem removes_own_iff (platform : Platform) (is : List Step) :
    (Guarded (step platform) (RemovesOwn platform) start is ∧
        Always (step platform) (Reachable platform) start is ↔
      Guarded (step platform) LastOfAddress start is) ∧
    (Guarded (step platform) CreatesAlone start is →
      Guarded (step platform) LastOfAddress start is) := by
  refine ⟨⟨fun ⟨hown, hreach⟩ => ?_, fun h => ⟨?_, ?_⟩⟩, guarded_last_of_alone⟩
  · intro js i hpre
    have hbefore : js <+: is := (List.prefix_append js [i]).trans hpre
    have hinv : Inv platform (run (step platform) start js) :=
      always_of_step (fun _ i h => h.step i) inv_start is js hbefore
    exact hinv.last_of_removes_own (hinv.reachable_iff.mp (hreach js hbefore)) (hown js i hpre)
  · intro js i hpre
    have hs := always_named h js ((List.prefix_append js [i]).trans hpre)
    exact hs.1.removes_own (h js i hpre)
  · exact (always_named h).mono fun _ hs => hs.1.reachable_iff.mpr hs.2

def market : Address := ⟨"market/a"⟩

/-- The first writer is dropped when a second process has taken its address over. -/
def takenOver : List Step :=
  [.create market ⟨8, 8, by decide⟩ 4 ⟨none, none, none⟩,
   .writeTo 1 market ⟨8, 8, by decide⟩ 4 ⟨none, none, none⟩, .drop 0]

/-- The second writer lives on and nobody has cleaned up after it, yet no reader finds it. -/
theorem taken_over_unreachable : ¬ ∀ (platform : Platform) (is : List Step),
    Guarded (step platform) (RemovesOwn platform) start is ∧
      Always (step platform) (Reachable platform) start is := by
  intro h
  obtain ⟨segment, hconnect, -⟩ := (h ⟨fun _ => false⟩ takenOver).2.last 1
    ⟨⟨market, false, 1⟩, false⟩ (by decide) rfl
  have hlost : connect ⟨fun _ => false⟩ (run (step ⟨fun _ => false⟩) start takenOver).names market =
      .error .notFound := by decide
  rw [hlost] at hconnect
  cases hconnect

end Nnxt.WriterOwnership
