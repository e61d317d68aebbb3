import Nnxt.Foundation.HashMap

/-!
# Names of the queue segments

What `create`, `cleanup`, `write_to` and the drop of a writer do to the names
under which segments are found. Unlinking takes away a name, whatever it denotes
by then; who maps the segment keeps it.
-/

namespace Nnxt.SegmentNames

set_option autoImplicit false

open HashMap

inductive Errno where
  | einval
  | enoent
  | eexist
  | other (code : Nat)
  deriving DecidableEq, Repr

inductive RapidError where
  | addressInUse
  | notFound
  | capacityTooSmall
  | shmOpenFailed (errno : Errno)
  | shmUnlinkFailed (errno : Errno)
  | fileOpenFailed (errno : Errno)
  | fileUnlinkFailed (errno : Errno)
  | mmapFailed (errno : Errno)
  | truncateFailed (errno : Errno)
  deriving DecidableEq, Repr

/-- An address that has passed `Address::new`. -/
structure Address where
  path : String
  deriving DecidableEq, Repr

/-- The name of a shared memory object, or the path of a file. -/
inductive Name where
  | shm (addr : Address)
  | file (addr : Address)
  deriving DecidableEq, Repr

/-- `id` tells the objects apart; a new object has no bytes until `ftruncate`. -/
structure Segment where
  id : Nat
  size : Nat
  deriving DecidableEq, Repr

abbrev Names := Map Name Segment

/-- Whether `shm_open` takes the name of an address; it answers `EINVAL` otherwise,
as it does where a name may hold one slash only. -/
structure Platform where
  accepts : Address → Bool

/-- What the system calls inside `create` answer, as far as the names leave it open. -/
structure SystemCalls where
  refused : Option Nat
  truncateFails : Option Nat
  mapFails : Option Nat

structure ElementLayout where
  size : Nat
  align : Nat
  align_pos : 0 < align

structure Layout where
  readersOffset : Nat
  dataOffset : Nat
  totalSize : Nat
  deriving DecidableEq, Repr

/-- Dropping a writer unlinks by `addr`; `segment` is the object its `fd` keeps open. -/
structure Writer where
  addr : Address
  usedShmOpen : Bool
  segment : Nat
  deriving DecidableEq, Repr

def alignUp (value align : Nat) : Nat := (value + align - 1) / align * align

/-- The header takes 64 bytes, a reader slot 8. -/
def layoutFor (element : ElementLayout) (capacity maxReaders : Nat) : Except RapidError Layout :=
  if capacity = 0 then .error .capacityTooSmall
  else if 2 ^ 64 ≤ 8 * maxReaders then .error .capacityTooSmall
  else
    let readersOffset := alignUp 64 8
    let dataOffset := alignUp (readersOffset + 8 * maxReaders) element.align
    if 2 ^ 64 ≤ element.size * capacity then .error .capacityTooSmall
    else if 2 ^ 64 ≤ dataOffset + element.size * capacity then .error .capacityTooSmall
    else .ok ⟨readersOffset, dataOffset, dataOffset + element.size * capacity⟩

/-- `O_CREAT | O_EXCL`: a name that is there is not opened. -/
def openExclusive (names : Names) (name : Name) (id : Nat) (refused : Option Nat) :
    Except Errno Names :=
  match names.lookup name, refused with
  | some _, _ => .error .eexist
  | none, some code => .error (.other code)
  | none, none => .ok (names.insert name ⟨id, 0⟩)

/-- The flag is `used_shm_open`. -/
def openCreateShm (platform : Platform) (names : Names) (addr : Address) (id : Nat)
    (refused : Option Nat) : Except RapidError (Names × Bool) :=
  if platform.accepts addr then
    match openExclusive names (.shm addr) id refused with
    | .ok names => .ok (names, true)
    | .error errno => .error (.shmOpenFailed errno)
  else
    match openExclusive names (.file addr) id refused with
    | .ok names => .ok (names, false)
    | .error errno => .error (.fileOpenFailed errno)

def openExistingShm (platform : Platform) (names : Names) (addr : Address) :
    Except RapidError Segment :=
  match if platform.accepts addr then names.lookup (.shm addr) else none with
  | some segment => .ok segment
  | none =>
    -- after `EINVAL` and after `ENOENT`
    match names.lookup (.file addr) with
    | some segment => .ok segment
    | none => .error .notFound

def shmUnlink (platform : Platform) (names : Names) (addr : Address) (usedShmOpen : Bool) :
    Names × Except RapidError Unit :=
  if usedShmOpen then
    if platform.accepts addr then
      match names.lookup (.shm addr) with
      | some _ => (names.erase (.shm addr), .ok ())
      | none => (names, .error (.shmUnlinkFailed .enoent))
    else (names, .error (.shmUnlinkFailed .einval))
  else
    match names.lookup (.file addr) with
    | some _ => (names.erase (.file addr), .ok ())
    | none => (names, .error (.fileUnlinkFailed .enoent))

def cleanup (platform : Platform) (names : Names) (addr : Address) :
    Names × Except RapidError Unit :=
  match shmUnlink platform names addr true with
  | (names, .ok ()) => (names, .ok ())
  | (names, .error _) => shmUnlink platform names addr false

/-- The name the open object was opened under. -/
def openedName (addr : Address) (usedShmOpen : Bool) : Name :=
  if usedShmOpen then .shm addr else .file addr

def createWithReaders (platform : Platform) (names : Names) (addr : Address) (id : Nat)
    (element : ElementLayout) (capacity maxReaders : Nat) (calls : SystemCalls) :
    Names × Except RapidError Writer :=
  match layoutFor element capacity maxReaders with
  | .error error => (names, .error error)
  | .ok layout =>
    match openCreateShm platform names addr id calls.refused with
    -- both ways of not opening are reported as the address being taken
    | .error _ => (names, .error .addressInUse)
    | .ok (names, usedShmOpen) =>
      match calls.truncateFails with
      -- the name stays, with an empty object behind it
      | some code => (names, .error (.truncateFailed (.other code)))
      | none =>
        let names := names.insert (openedName addr usedShmOpen) ⟨id, layout.totalSize⟩
        match calls.mapFails with
        | some code => ((shmUnlink platform names addr usedShmOpen).1, .error (.mmapFailed (.other code)))
        | none => (names, .ok ⟨addr, usedShmOpen, id⟩)

def Writer.drop (w : Writer) (platform : Platform) (names : Names) : Names :=
  (shmUnlink platform names w.addr w.usedShmOpen).1

/-- `Reader::connect` as far as the name decides: nothing is mapped of an empty object. -/
def connect (platform : Platform) (names : Names) (addr : Address) : Except RapidError Segment :=
  match openExistingShm platform names addr with
  | .error error => .error error
  | .ok segment => if segment.size = 0 then .error (.mmapFailed .einval) else .ok segment

def Platform.nameOf (platform : Platform) (addr : Address) : Name :=
  openedName addr (platform.accepts addr)

theorem Platform.nameOf_inj {platform : Platform} {addr addr' : Address}
    (h : platform.nameOf addr = platform.nameOf addr') : addr = addr' := by
  simp only [nameOf, openedName] at h
  split at h <;> split at h <;> injection h

theorem layoutFor_pos {element : ElementLayout} {capacity maxReaders : Nat} {layout : Layout}
    (h : layoutFor element capacity maxReaders = .ok layout) : 0 < layout.totalSize := by
  unfold layoutFor at h
  split at h
  · cases h
  split at h
  · cases h
  simp only at h
  split at h
  · cases h
  split at h
  · cases h
  cases h
  have halign := element.align_pos
  have hdata : 0 < alignUp (alignUp 64 8 + 8 * maxReaders) element.align := by
    have hoffset : alignUp 64 8 = 64 := rfl
    rw [hoffset, alignUp]
    exact Nat.mul_pos (Nat.div_pos (by omega) halign) halign
  exact Nat.add_pos_left hdata _

theorem layoutFor_lt {element : ElementLayout} {capacity maxReaders : Nat} {layout : Layout}
    (h : layoutFor element capacity maxReaders = .ok layout) :
    layout.readersOffset < 2 ^ 64 ∧ layout.dataOffset < 2 ^ 64 ∧ layout.totalSize < 2 ^ 64 := by
  unfold layoutFor at h
  split at h
  · cases h
  split at h
  · cases h
  simp only at h
  split at h
  · cases h
  split at h
  · cases h
  rename_i htotal
  cases h
  have htotal := Nat.lt_of_not_le htotal
  have hoffset : alignUp 64 8 < 2 ^ 64 := by
    rw [alignUp]
    omega
  exact ⟨hoffset, Nat.lt_of_le_of_lt (Nat.le_add_right _ _) htotal, htotal⟩

/-- Every name is the one its address has on this platform. -/
def Placed (platform : Platform) (names : Names) : Prop :=
  ∀ name segment, names.lookup name = some segment → ∃ addr, name = platform.nameOf addr

section Lookup
variable {platform : Platform} {names : Names} {addr : Address}

theorem nameOf_of_accepts (h : platform.accepts addr = true) : platform.nameOf addr = .shm addr := by
  rw [Platform.nameOf, h]
  rfl

theorem nameOf_of_refuses (h : platform.accepts addr = false) :
    platform.nameOf addr = .file addr := by
  rw [Platform.nameOf, h]
  rfl

theorem Placed.named (h : Placed platform names) {names' : Names} {segment : Segment}
    (named : ∀ n, names'.lookup n =
      if n = platform.nameOf addr then some segment else names.lookup n) :
    Placed platform names' := by
  intro name other hname
  rw [named] at hname
  split at hname
  · exact ⟨addr, by assumption⟩
  · exact h name other hname

theorem Placed.lookup_file (h : Placed platform names) (haccepts : platform.accepts addr = true) :
    names.lookup (.file addr) = none := by
  apply Option.eq_none_iff_forall_ne_some.mpr
  intro segment hsegment
  obtain ⟨other, hother⟩ := h _ _ hsegment
  cases haccepts' : platform.accepts other with
  | true =>
    rw [nameOf_of_accepts haccepts'] at hother
    cases hother
  | false =>
    rw [nameOf_of_refuses haccepts'] at hother
    cases hother
    rw [haccepts] at haccepts'
    cases haccepts'

/-- Unlinking by the flag of the writer takes the name of its address away. -/
theorem lookup_shmUnlink (n : Name) :
    (shmUnlink platform names addr (platform.accepts addr)).1.lookup n =
      if n = platform.nameOf addr then none else names.lookup n := by
  cases haccepts : platform.accepts addr with
  | true =>
    rw [nameOf_of_accepts haccepts]
    simp only [shmUnlink, haccepts, if_true]
    split
    · exact lookup_erase_eq _ _ _
    · rename_i hnone
      exact lookup_of_absent hnone n
  | false =>
    rw [nameOf_of_refuses haccepts]
    simp only [shmUnlink, Bool.false_eq_true, if_false]
    split
    · exact lookup_erase_eq _ _ _
    · rename_i hnone
      exact lookup_of_absent hnone n

theorem Placed.lookup_cleanup (h : Placed platform names) (n : Name) :
    (cleanup platform names addr).1.lookup n =
      if n = platform.nameOf addr then none else names.lookup n := by
  cases haccepts : platform.accepts addr with
  | true =>
    have hfile := h.lookup_file haccepts
    rw [nameOf_of_accepts haccepts]
    simp only [cleanup, shmUnlink, haccepts, if_true]
    cases hshm : names.lookup (.shm addr) with
    | some segment => exact lookup_erase_eq _ _ _
    | none =>
      simp only [Bool.false_eq_true, if_false, hfile]
      exact lookup_of_absent hshm n
  | false =>
    have hunlink := @lookup_shmUnlink platform names addr n
    rw [haccepts] at hunlink
    simp only [cleanup]
    rw [← hunlink]
    simp only [shmUnlink, haccepts, if_true, Bool.false_eq_true, if_false]

theorem Placed.openExistingShm_eq (h : Placed platform names) :
    openExistingShm platform names addr =
      match names.lookup (platform.nameOf addr) with
      | some segment => .ok segment
      | none => .error .notFound := by
  cases haccepts : platform.accepts addr with
  | true =>
    rw [nameOf_of_accepts haccepts]
    simp only [openExistingShm, haccepts, if_true, h.lookup_file haccepts]
  | false =>
    rw [nameOf_of_refuses haccepts]
    simp only [openExistingShm, haccepts, Bool.false_eq_true, if_false]

/-- A reader finds what the name of the address denotes, unless it is empty. -/
theorem Placed.connect_iff (h : Placed platform names) (segment : Segment) :
    connect platform names addr = .ok segment ↔
      names.lookup (platform.nameOf addr) = some segment ∧ segment.size ≠ 0 := by
  rw [connect, h.openExistingShm_eq]
  cases names.lookup (platform.nameOf addr) with
  | none => simp
  | some found =>
    by_cases hempty : found.size = 0
    · simp only [if_pos hempty, reduceCtorEq, Option.some.injEq, false_iff, not_and, not_not]
      intro heq
      rw [← heq]
      exact hempty
    · simp only [if_neg hempty, Except.ok.injEq, Option.some.injEq]
      constructor
      · intro heq
        exact ⟨heq, heq ▸ hempty⟩
      · intro h
        exact h.1

end Lookup

section Create
variable {platform : Platform} {names : Names} {addr : Address} {id : Nat}

theorem openExclusive_cases (names : Names) (name : Name) (id : Nat) (refused : Option Nat) :
    ((refused ≠ none ∨ names.lookup name ≠ none) ∧
      ∃ errno, openExclusive names name id refused = .error errno) ∨
    (refused = none ∧ names.lookup name = none ∧
      openExclusive names name id refused = .ok (names.insert name ⟨id, 0⟩)) := by
  unfold openExclusive
  cases hlookup : names.lookup name with
  | some => exact Or.inl ⟨.inr (by simp), _, rfl⟩
  | none =>
    cases refused with
    | some => exact Or.inl ⟨.inl (by simp), _, rfl⟩
    | none => exact Or.inr ⟨rfl, rfl, rfl⟩

theorem openCreateShm_cases (refused : Option Nat) :
    ((refused ≠ none ∨ names.lookup (platform.nameOf addr) ≠ none) ∧
      ∃ error, openCreateShm platform names addr id refused = .error error) ∨
    (refused = none ∧ names.lookup (platform.nameOf addr) = none ∧
      openCreateShm platform names addr id refused =
        .ok (names.insert (platform.nameOf addr) ⟨id, 0⟩, platform.accepts addr)) := by
  unfold openCreateShm
  cases haccepts : platform.accepts addr with
  | true =>
    rw [nameOf_of_accepts haccepts, if_pos rfl]
    rcases openExclusive_cases names (.shm addr) id refused with
      ⟨hwhy, errno, hopen⟩ | ⟨hrefused, hfree, hopen⟩
    · exact Or.inl ⟨hwhy, _, by rw [hopen]⟩
    · exact Or.inr ⟨hrefused, hfree, by rw [hopen]⟩
  | false =>
    rw [nameOf_of_refuses haccepts, if_neg Bool.false_ne_true]
    rcases openExclusive_cases names (.file addr) id refused with
      ⟨hwhy, errno, hopen⟩ | ⟨hrefused, hfree, hopen⟩
    · exact Or.inl ⟨hwhy, _, by rw [hopen]⟩
    · exact Or.inr ⟨hrefused, hfree, by rw [hopen]⟩

/-- The names and the result of a `create`: nothing new, an empty object, or a writer. -/
inductive Created (platform : Platform) (names : Names) (addr : Address) (id : Nat) :
    Names × Except RapidError Writer → Prop where
  | nothing (names' : Names) (error : RapidError) (same : ∀ n, names'.lookup n = names.lookup n) :
    Created platform names addr id (names', .error error)
  | empty (error : RapidError) (free : names.lookup (platform.nameOf addr) = none) :
    Created platform names addr id
      (names.insert (platform.nameOf addr) ⟨id, 0⟩, .error error)
  | writer (names' : Names) (size : Nat) (nonempty : size ≠ 0)
    (free : names.lookup (platform.nameOf addr) = none)
    (named : ∀ n, names'.lookup n =
      if n = platform.nameOf addr then some ⟨id, size⟩ else names.lookup n) :
    Created platform names addr id (names', .ok ⟨addr, platform.accepts addr, id⟩)

theorem createWithReaders_cases (element : ElementLayout) (capacity maxReaders : Nat)
    (calls : SystemCalls) :
    Created platform names addr id
      (createWithReaders platform names addr id element capacity maxReaders calls) := by
  unfold createWithReaders
  cases hlayout : layoutFor element capacity maxReaders with
  | error error => exact .nothing _ _ fun _ => rfl
  | ok layout =>
    simp only
    rcases @openCreateShm_cases platform names addr id calls.refused with
      ⟨_, error, hopen⟩ | ⟨_, hfree, hopen⟩
    · rw [hopen]
      exact .nothing _ _ fun _ => rfl
    · rw [hopen]
      simp only
      cases calls.truncateFails with
      | some code => exact .empty _ hfree
      | none =>
        have hnamed : ∀ n, ((names.insert (platform.nameOf addr) ⟨id, 0⟩).insert
            (openedName addr (platform.accepts addr)) ⟨id, layout.totalSize⟩).lookup n =
              if n = platform.nameOf addr then some ⟨id, layout.totalSize⟩ else names.lookup n := by
          intro n
          rw [← Platform.nameOf, lookup_insert_eq, lookup_insert_eq]
          split <;> rfl
        cases calls.mapFails with
        | some code =>
          refine .nothing _ _ fun n => ?_
          rw [lookup_shmUnlink, hnamed]
          split
          · rename_i hn
            rw [hn]
            exact hfree.symm
          · rfl
        | none => exact .writer _ _ (Nat.ne_of_gt (layoutFor_pos hlayout)) hfree hnamed

end Create

end Nnxt.SegmentNames
