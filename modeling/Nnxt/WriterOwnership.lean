import Nnxt.SegmentNames
import Nnxt.ActorContext
import Nnxt.Foundation.Transition

/-!
# Whose name a dropped writer takes away

`write_to` clears the address of an older queue whose writer may still live. That
writer, dropped later, unlinks the address once more, and with it whatever queue
has been created there since.
-/

namespace Nnxt.WriterOwnership

set_option autoImplicit false

open HashMap SegmentNames Transition

/-- A writer not dropped yet. No operation reads `cleaned`: its address has been
cleaned up since it was created. -/
structure Live where
  writer : SegmentNames.Writer
  cleaned : Bool
  deriving DecidableEq

/-- `held` are the keys of the `writers` of each context, which never shrink. -/
structure State where
  names : Names
  next : Nat
  live : Map Nat Live
  held : List (Nat × Address)

inductive WriteToError where
  | queueAlreadyExists (addr : Address)
  | rapidError (error : RapidError)
  deriving DecidableEq, Repr

/-- A context is dropped as its writers are, one after the other. -/
inductive Step where
  | create (addr : Address) (element : ElementLayout) (capacity : Nat) (calls : SystemCalls)
  | writeTo (context : Nat) (addr : Address) (element : ElementLayout) (capacity : Nat)
    (calls : SystemCalls)
  | cleanup (addr : Address)
  | drop (id : Nat)

namespace State

/-- Every object that may have been opened has a number of its own. -/
def created (s : State) (outcome : Names × Except RapidError SegmentNames.Writer) :
    State × Except RapidError Unit :=
  match outcome with
  | (names, .ok writer) =>
    ({ s with names := names, next := s.next + 1, live := s.live.insert s.next ⟨writer, false⟩ }, .ok ())
  | (names, .error error) => ({ s with names := names, next := s.next + 1 }, .error error)

def create (platform : Platform) (s : State) (addr : Address) (element : ElementLayout)
    (capacity : Nat) (calls : SystemCalls) : State × Except RapidError Unit :=
  s.created (createWithReaders platform s.names addr s.next element capacity defaultMaxReaders calls)

def cleanedAt (addr : Address) (live : Live) : Live :=
  if live.writer.addr = addr then { live with cleaned := true } else live

def cleanup (platform : Platform) (s : State) (addr : Address) : State × Except RapidError Unit :=
  ({ s with
      names := (SegmentNames.cleanup platform s.names addr).1
      live := mapValues (cleanedAt addr) s.live },
   (SegmentNames.cleanup platform s.names addr).2)

def writeTo (platform : Platform) (s : State) (context : Nat) (addr : Address)
    (element : ElementLayout) (capacity : Nat) (calls : SystemCalls) :
    State × Except WriteToError Unit :=
  if (context, addr) ∈ s.held then (s, .error (.queueAlreadyExists addr))
  else
    -- whether there was anything to clean up is ignored
    match create platform (s.cleanup platform addr).1 addr element capacity calls with
    | (s, .ok ()) => ({ s with held := (context, addr) :: s.held }, .ok ())
    | (s, .error error) => (s, .error (.rapidError error))

def drop (platform : Platform) (s : State) (id : Nat) : State :=
  match s.live.lookup id with
  | none => s
  | some live =>
    { s with names := live.writer.drop platform s.names, live := s.live.erase id }

end State

def step (platform : Platform) (s : State) : Step → State
  | .create addr element capacity calls => (s.create platform addr element capacity calls).1
  | .writeTo context addr element capacity calls =>
    (s.writeTo platform context addr element capacity calls).1
  | .cleanup addr => (s.cleanup platform addr).1
  | .drop id => s.drop platform id

def start : State := ⟨∅, 0, ∅, []⟩

/-- A dropped writer leaves every name that denotes the segment of another one. -/
def RemovesOwn (platform : Platform) (s : State) : Step → Prop
  | .drop id => ∀ name segment, s.names.lookup name = some segment → segment.size ≠ 0 →
      segment.id ≠ id → (s.drop platform id).names.lookup name = some segment
  | _ => True

/-- Readers reach the queue of every writer whose address nobody has cleaned up. -/
def Reachable (platform : Platform) (s : State) : Prop :=
  ∀ id live, s.live.lookup id = some live → live.cleaned = false →
    ∃ segment, connect platform s.names live.writer.addr = .ok segment ∧ segment.id = id

/-- A writer is dropped only when every other writer left at its address has been
cleaned up. -/
def LastOfAddress (s : State) : Step → Prop
  | .drop id => ∀ live, s.live.lookup id = some live → ∀ other live',
      s.live.lookup other = some live' → live'.writer.addr = live.writer.addr →
      live'.cleaned = false → other = id
  | _ => True

/-- A queue is created only where no writer lives that was created there. -/
def CreatesAlone (s : State) : Step → Prop
  | .create addr _ _ _ => ∀ id live, s.live.lookup id = some live → live.writer.addr ≠ addr
  | .writeTo _ addr _ _ _ => ∀ id live, s.live.lookup id = some live → live.writer.addr ≠ addr
  | _ => True

/-- Names are where the platform puts them, and denote empty objects or the
segments of live writers that have not been cleaned up. -/
structure Inv (platform : Platform) (s : State) : Prop where
  placed : Placed platform s.names
  fresh : ∀ id live, s.live.lookup id = some live → id < s.next
  opened : ∀ id live, s.live.lookup id = some live →
    live.writer.usedShmOpen = platform.accepts live.writer.addr
  owned : ∀ name segment, s.names.lookup name = some segment → segment.size ≠ 0 →
    ∃ live, s.live.lookup segment.id = some live ∧ live.cleaned = false ∧
      name = platform.nameOf live.writer.addr

section Steps
variable {platform : Platform} {s : State} {addr : Address}
  {outcome : Names × Except RapidError SegmentNames.Writer}

theorem lookup_live_insert {id : Nat} {live : Live} {writer : SegmentNames.Writer}
    (h : (s.live.insert s.next ⟨writer, false⟩).lookup id = some live) :
    (id = s.next ∧ live = ⟨writer, false⟩) ∨ s.live.lookup id = some live := by
  rw [lookup_insert_eq] at h
  split at h
  · rename_i hid
    exact Or.inl ⟨hid, (Option.some.inj h).symm⟩
  · exact Or.inr h

theorem Inv.created (h : Inv platform s)
    (hout : Created platform s.names addr s.next outcome) :
    Inv platform (s.created outcome).1 := by
  cases hout with
  | nothing names' error same =>
    refine ⟨?_, ?_, h.opened, ?_⟩
    · intro name segment hname
      exact h.placed name segment ((same name).symm.trans hname)
    · intro id live hlive
      exact Nat.lt_succ_of_lt (h.fresh id live hlive)
    · intro name segment hname hsize
      exact h.owned name segment ((same name).symm.trans hname) hsize
  | empty error free =>
    refine ⟨?_, ?_, h.opened, ?_⟩
    · exact h.placed.named fun name => lookup_insert_eq _ name _ _
    · intro id live hlive
      exact Nat.lt_succ_of_lt (h.fresh id live hlive)
    · intro name segment hname hsize
      simp only [State.created, lookup_insert_eq] at hname
      split at hname
      · cases hname
        exact absurd rfl hsize
      · exact h.owned name segment hname hsize
  | writer names' size nonempty free named =>
    refine ⟨?_, ?_, ?_, ?_⟩
    · exact h.placed.named named
    · intro id live hlive
      rcases lookup_live_insert hlive with ⟨hid, _⟩ | hlive
      · rw [hid]
        exact Nat.lt_succ_self _
      · exact Nat.lt_succ_of_lt (h.fresh id live hlive)
    · intro id live hlive
      rcases lookup_live_insert hlive with ⟨_, hlive⟩ | hlive
      · rw [hlive]
      · exact h.opened id live hlive
    · intro name segment hname hsize
      simp only [State.created, named] at hname
      split at hname
      · rename_i hn
        cases hname
        exact ⟨_, AList.lookup_insert _, rfl, hn⟩
      · obtain ⟨live, hlive, hrest⟩ := h.owned name segment hname hsize
        have hne : segment.id ≠ s.next := Nat.ne_of_lt (h.fresh _ _ hlive)
        exact ⟨live, (AList.lookup_insert_ne hne).trans hlive, hrest⟩

theorem cleanedAt_addr (live : Live) : (State.cleanedAt addr live).writer = live.writer := by
  unfold State.cleanedAt
  split <;> rfl

theorem lookup_cleanup_live {id : Nat} {live : Live}
    (h : (s.cleanup platform addr).1.live.lookup id = some live) :
    ∃ before, s.live.lookup id = some before ∧ live = State.cleanedAt addr before := by
  simp only [State.cleanup, lookup_mapValues] at h
  obtain ⟨before, hbefore, rfl⟩ := Option.map_eq_some_iff.mp h
  exact ⟨before, hbefore, rfl⟩

theorem Inv.lookup_cleanup (h : Inv platform s) (name : Name) :
    (s.cleanup platform addr).1.names.lookup name =
      if name = platform.nameOf addr then none else s.names.lookup name :=
  h.placed.lookup_cleanup name

theorem Inv.cleanup (h : Inv platform s) (addr : Address) :
    Inv platform (s.cleanup platform addr).1 where
  placed := by
    intro name segment hname
    rw [h.lookup_cleanup] at hname
    split at hname
    · cases hname
    · exact h.placed name segment hname
  fresh := by
    intro id live hlive
    obtain ⟨before, hbefore, -⟩ := lookup_cleanup_live hlive
    exact h.fresh id before hbefore
  opened := by
    intro id live hlive
    obtain ⟨before, hbefore, rfl⟩ := lookup_cleanup_live hlive
    rw [cleanedAt_addr]
    exact h.opened id before hbefore
  owned := by
    intro name segment hname hsize
    rw [h.lookup_cleanup] at hname
    split at hname
    · cases hname
    rename_i hne
    obtain ⟨live, hlive, hcleaned, hn⟩ := h.owned name segment hname hsize
    -- the writer is of another address, so it is not cleaned up here
    have hother : State.cleanedAt addr live = live := by
      apply if_neg
      intro heq
      exact hne (heq ▸ hn)
    refine ⟨live, ?_, hcleaned, hn⟩
    simp only [State.cleanup, lookup_mapValues, hlive, Option.map_some, hother]

theorem drop_of_dropped {id : Nat} (h : s.live.lookup id = none) : s.drop platform id = s := by
  simp only [State.drop, h]

/-- A dropped writer takes the name of its address away, and is no longer live. -/
theorem Inv.lookup_drop (h : Inv platform s) {id : Nat} {live : Live}
    (hlive : s.live.lookup id = some live) (name : Name) :
    (s.drop platform id).names.lookup name =
      if name = platform.nameOf live.writer.addr then none else s.names.lookup name := by
  simp only [State.drop, hlive, SegmentNames.Writer.drop]
  rw [h.opened id live hlive]
  exact lookup_shmUnlink name

theorem lookup_drop_live {id : Nat} {live : Live} (hlive : s.live.lookup id = some live) (other : Nat) :
    (s.drop platform id).live.lookup other = if other = id then none else s.live.lookup other := by
  simp only [State.drop, hlive]
  exact lookup_erase_eq id other s.live

theorem live_of_drop {id other : Nat} {live : Live}
    (h : (s.drop platform id).live.lookup other = some live) :
    other ≠ id ∧ s.live.lookup other = some live := by
  cases hdropped : s.live.lookup id with
  | none =>
    rw [drop_of_dropped hdropped] at h
    refine ⟨?_, h⟩
    intro heq
    rw [heq, hdropped] at h
    cases h
  | some dropped =>
    rw [lookup_drop_live hdropped] at h
    split at h
    · cases h
    · exact ⟨by assumption, h⟩

theorem Inv.drop (h : Inv platform s) (id : Nat) : Inv platform (s.drop platform id) := by
  cases hlive : s.live.lookup id with
  | none =>
    rw [drop_of_dropped hlive]
    exact h
  | some live =>
    have hnext : (s.drop platform id).next = s.next := by
      simp only [State.drop, hlive]
    refine ⟨?_, ?_, ?_, ?_⟩
    · intro name segment hname
      rw [h.lookup_drop hlive] at hname
      split at hname
      · cases hname
      · exact h.placed name segment hname
    · intro other live' hother
      rw [hnext]
      exact h.fresh other live' (live_of_drop hother).2
    · intro other live' hother
      exact h.opened other live' (live_of_drop hother).2
    · intro name segment hname hsize
      rw [h.lookup_drop hlive] at hname
      split at hname
      · cases hname
      rename_i hne
      obtain ⟨live', hlive', hcleaned, hn⟩ := h.owned name segment hname hsize
      have hother : segment.id ≠ id := by
        intro heq
        rw [heq, hlive] at hlive'
        cases hlive'
        exact hne hn
      refine ⟨live', ?_, hcleaned, hn⟩
      rw [lookup_drop_live hlive, if_neg hother]
      exact hlive'

/-- A refused `write_to` changes nothing; any other one cleans up and creates. -/
theorem writeTo_cases (s : State) (context : Nat) (addr : Address) (element : ElementLayout)
    (capacity : Nat) (calls : SystemCalls) :
    (s.writeTo platform context addr element capacity calls).1 = s ∨
      ∃ held, (s.writeTo platform context addr element capacity calls).1 =
        { ((s.cleanup platform addr).1.create platform addr element capacity calls).1 with
          held := held } := by
  unfold State.writeTo
  split
  · exact Or.inl rfl
  · right
    cases (s.cleanup platform addr).1.create platform addr element capacity calls with
    | mk after result =>
      cases result with
      | ok => exact ⟨_, rfl⟩
      | error => exact ⟨after.held, rfl⟩

/-- What a refusal keeps, and cleaning up and creating bring about, holds after
`write_to`; `held` is read by `write_to` only. -/
theorem of_writeTo {P : State → Prop} {context : Nat} {element : ElementLayout} {capacity : Nat}
    {calls : SystemCalls} (hs : P s)
    (hcreated : P ((s.cleanup platform addr).1.create platform addr element capacity calls).1)
    (hheld : ∀ t held, P t → P { t with held := held }) :
    P (s.writeTo platform context addr element capacity calls).1 := by
  rcases writeTo_cases s context addr element capacity calls with hsame | ⟨held, hafter⟩
  · rw [hsame]
    exact hs
  · rw [hafter]
    exact hheld _ held hcreated

theorem Inv.create (h : Inv platform s) (addr : Address) (element : ElementLayout) (capacity : Nat)
    (calls : SystemCalls) : Inv platform (s.create platform addr element capacity calls).1 :=
  h.created (createWithReaders_cases element capacity defaultMaxReaders calls)

theorem Inv.step (h : Inv platform s) (i : Step) : Inv platform (step platform s i) := by
  cases i with
  | create addr element capacity calls => exact h.create addr element capacity calls
  | writeTo context addr element capacity calls =>
    have hcreated := (h.cleanup addr).create addr element capacity calls
    refine of_writeTo h hcreated ?_
    intro t held ht
    exact ⟨ht.placed, ht.fresh, ht.opened, ht.owned⟩
  | cleanup addr => exact h.cleanup addr
  | drop id => exact h.drop id

theorem inv_start : Inv platform start where
  placed := fun _ _ h => by cases h
  fresh := fun _ _ h => by cases h
  opened := fun _ _ h => by cases h
  owned := fun _ _ h => by cases h

end Steps

end Nnxt.WriterOwnership
