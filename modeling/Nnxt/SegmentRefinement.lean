import Nnxt.FailedOpens
import Nnxt.Foundation.Transition

/-!
# What the system calls do to names

On the addresses that `Address::new` accepts, `create_with_readers`, `connect` and
`shm_unlink` act on the names of segments as the model of names alone says: the same
names denote the same objects, of the same sizes, before and after.
-/

namespace Nnxt.SegmentCalls

set_option autoImplicit false

open HashMap MemoryLayout Transition
open QueueAddress (Address)
open SegmentNames (Errno Names Platform RapidError Segment SystemCalls)

def Accepted (addr : Address) : Prop := ∃ path, Address.new path = .ok addr

/-- The address as the names have it. -/
def named (addr : Address) : SegmentNames.Address := ⟨addr.path⟩

def namedElement (T : ElementLayout) : SegmentNames.ElementLayout :=
  ⟨T.size.toNat, T.align.toNat, align_pos T⟩

def World.segment (w : World) (id : Nat) : Segment := ⟨id, (w.objects id).size.toNat⟩

/-- Every accepted address has the same segment in both. -/
def Shows (w : World) (names : Names) : Prop :=
  ∀ addr, Accepted addr → ∀ usedShmOpen,
    names.lookup (SegmentNames.openedName (named addr) usedShmOpen) =
      (w.names.lookup (openedName addr usedShmOpen)).map w.segment

/-- `shm_open` answers as the platform does; whether a name is missing is for the names
to tell. -/
structure Answers (platform : Platform) (addr : Address) (calls : Calls) : Prop where
  einval : calls.shmOpen = some .einval ↔ platform.accepts (named addr) = false
  enoent : calls.shmOpen ≠ some .enoent

def errorCode : Errno → Nat
  | .einval => 22
  | .enoent => 2
  | .eexist => 17
  | .other code => code

/-- What refuses a new name besides the names. -/
def Calls.refusal (calls : Calls) (usedShmOpen : Bool) : Option Errno :=
  if usedShmOpen then calls.shmOpen else calls.createDirs <|> calls.fileOpen

def Calls.systemCalls (calls : Calls) (usedShmOpen : Bool) : SystemCalls where
  refused := (calls.refusal usedShmOpen).map errorCode
  truncateFails := calls.ftruncate.map errorCode
  mapFails := calls.mmap.map errorCode

/-- Both succeed, with values that correspond, or both fail. -/
inductive SameResult {A B : Type} (R : A → B → Prop) :
    Except Error A → Except RapidError B → Prop where
  | ok (a : A) (b : B) (same : R a b) : SameResult R (.ok a) (.ok b)
  | error (error : Error) (error' : RapidError) : SameResult R (.error error) (.error error')

/-- The writer has the segment open that it is known by. -/
structure SameWriter (w : World) (writer : Writer) (writer' : SegmentNames.Writer) : Prop where
  addr : writer'.addr = named writer.addr
  usedShmOpen : writer'.usedShmOpen = writer.usedShmOpen
  segment : w.descriptors.lookup writer.fd = some writer'.segment

section Addresses
variable {addr addr' : Address} {usedShmOpen usedShmOpen' : Bool}

theorem Accepted.names (h : Accepted addr) :
    addr.shmName = QueueAddress.shmPrefix ++ "/" ++ addr.path ∧
      addr.filePath = ⟨QueueAddress.shmRoot ++ "/" ++ addr.path⟩ := by
  obtain ⟨path, hpath⟩ := h
  obtain ⟨-, rfl⟩ := QueueAddress.new_eq_ok_iff.mp hpath
  exact ⟨rfl, rfl⟩

/-- Both models tell the names of accepted addresses apart alike. -/
theorem openedName_eq_iff (h : Accepted addr) (h' : Accepted addr') :
    openedName addr usedShmOpen = openedName addr' usedShmOpen' ↔
      SegmentNames.openedName (named addr) usedShmOpen =
        SegmentNames.openedName (named addr') usedShmOpen' := by
  obtain ⟨hshm, hfile⟩ := h.names
  obtain ⟨hshm', hfile'⟩ := h'.names
  cases usedShmOpen <;> cases usedShmOpen' <;>
    simp [openedName, SegmentNames.openedName, named, hshm, hshm', hfile, hfile',
      String.append_right_inj]

end Addresses

section Frames
variable {w w' : World} {names names' : Names} {addr : Address}

/-- Nothing that is named changes its size. -/
def KeepsSizes (w w' : World) : Prop :=
  ∀ id, w.Live id → (w'.objects id).size = (w.objects id).size

theorem KeepsSizes.segments (h : KeepsSizes w w') (name : Name) :
    (w.names.lookup name).map w'.segment = (w.names.lookup name).map w.segment := by
  cases hname : w.names.lookup name with
  | none => rfl
  | some id =>
    have hlive : w.Live id := .inl ⟨name, hname⟩
    simp only [Option.map_some, World.segment, h id hlive]

theorem Shows.update (h : Shows w names) (haddr : Accepted addr) (usedShmOpen : Bool)
    (found : Option Nat)
    (hnames : ∀ name, w'.names.lookup name =
      if name = openedName addr usedShmOpen then found else w.names.lookup name)
    (hshown : ∀ name, names'.lookup name =
      if name = SegmentNames.openedName (named addr) usedShmOpen then found.map w'.segment
      else names.lookup name)
    (hsizes : KeepsSizes w w') : Shows w' names' := by
  intro addr' haddr' usedShmOpen'
  rw [hnames, hshown]
  by_cases hsame : openedName addr' usedShmOpen' = openedName addr usedShmOpen
  · rw [if_pos hsame, if_pos ((openedName_eq_iff haddr' haddr).mp hsame)]
  · rw [if_neg hsame, if_neg fun heq => hsame ((openedName_eq_iff haddr' haddr).mpr heq),
      h addr' haddr' usedShmOpen', hsizes.segments]

theorem size_setObject {object : Object} {target : Nat} (h : object.size = (w.objects target).size)
    (id : Nat) : ((w.setObject target object).objects id).size = (w.objects id).size := by
  simp only [World.setObject, Function.update_apply]
  split
  · rename_i heq
    rw [heq, h]
  · rfl

theorem Shows.same (h : Shows w names) (hnames : w'.names = w.names)
    (hsizes : KeepsSizes w w') : Shows w' names := by
  intro addr haddr usedShmOpen
  rw [hnames, h addr haddr usedShmOpen, hsizes.segments]

end Frames

section Unlinking
variable {platform : Platform} {w : World} {names : Names} {addr : Address} {usedShmOpen : Bool}

theorem shmUnlink_of_none (hflag : usedShmOpen = true → platform.accepts (named addr) = true)
    (hname : names.lookup (SegmentNames.openedName (named addr) usedShmOpen) = none) :
    ∃ error, SegmentNames.shmUnlink platform names (named addr) usedShmOpen =
      (names, .error error) := by
  cases usedShmOpen with
  | true =>
    rw [SegmentNames.openedName, if_pos rfl] at hname
    exact ⟨.shmUnlinkFailed .enoent, by simp only [SegmentNames.shmUnlink, hflag rfl, if_true, hname]⟩
  | false =>
    rw [SegmentNames.openedName, if_neg Bool.false_ne_true] at hname
    exact ⟨.fileUnlinkFailed .enoent,
      by simp only [SegmentNames.shmUnlink, Bool.false_eq_true, if_false, hname]⟩

theorem shmUnlink_of_some {segment : Segment}
    (hflag : usedShmOpen = true → platform.accepts (named addr) = true)
    (hname : names.lookup (SegmentNames.openedName (named addr) usedShmOpen) = some segment) :
    SegmentNames.shmUnlink platform names (named addr) usedShmOpen =
      (names.erase (SegmentNames.openedName (named addr) usedShmOpen), .ok ()) := by
  cases usedShmOpen with
  | true =>
    rw [SegmentNames.openedName, if_pos rfl] at hname ⊢
    simp only [SegmentNames.shmUnlink, hflag rfl, if_true, hname]
  | false =>
    rw [SegmentNames.openedName, if_neg Bool.false_ne_true] at hname ⊢
    simp only [SegmentNames.shmUnlink, Bool.false_eq_true, if_false, hname]

/-- `shm_unlink` of a name that the platform can have. -/
theorem shmUnlink_shown (h : Shows w names) (haddr : Accepted addr)
    (hflag : usedShmOpen = true → platform.accepts (named addr) = true) :
    Shows (shmUnlink w addr usedShmOpen).1
        (SegmentNames.shmUnlink platform names (named addr) usedShmOpen).1 ∧
      SameResult (fun _ _ => True) (shmUnlink w addr usedShmOpen).2
        (SegmentNames.shmUnlink platform names (named addr) usedShmOpen).2 := by
  have hname := h addr haddr usedShmOpen
  unfold shmUnlink
  dsimp only
  cases hlookup : w.names.lookup (openedName addr usedShmOpen) with
  | none =>
    rw [hlookup] at hname
    obtain ⟨error, hunlink⟩ := shmUnlink_of_none hflag hname
    rw [hunlink]
    exact ⟨h, .error _ _⟩
  | some id =>
    rw [hlookup] at hname
    rw [shmUnlink_of_some hflag hname]
    refine ⟨h.update haddr usedShmOpen none (fun name => ?_) (fun name => ?_) fun _ _ => rfl,
      .ok _ _ trivial⟩
    · exact lookup_erase_eq _ _ _
    · exact lookup_erase_eq _ _ _

end Unlinking

section Creating
variable {kernel : Kernel} {platform : Platform} {w : World} {names : Names} {addr : Address}
  {T : ElementLayout} {capacity maxReaders : UInt64} {calls : Calls} {usedShmOpen : Bool}

/-- The answers decide under which of its two names the address is opened. -/
theorem openCreateShm_answered (hanswers : Answers platform addr calls)
    (hflag : platform.accepts (named addr) = usedShmOpen) :
    ((calls.refusal usedShmOpen ≠ none ∨ w.names.lookup (openedName addr usedShmOpen) ≠ none) ∧
      ∃ error, openCreateShm kernel w addr calls = (w, .error error)) ∨
    (calls.refusal usedShmOpen = none ∧ w.names.lookup (openedName addr usedShmOpen) = none ∧
      openCreateShm kernel w addr calls = (w.created kernel (openedName addr usedShmOpen),
        .ok ⟨kernel.newDescriptor w, usedShmOpen⟩)) := by
  unfold openCreateShm
  cases usedShmOpen with
  | true =>
    have heinval : calls.shmOpen ≠ some .einval := by
      rw [Ne, hanswers.einval, hflag]
      exact Bool.true_eq_false_eq_False
    rcases openExclusive_cases kernel w (.shm addr.shmName) calls.shmOpen with
      ⟨errno, hopen, hwhy⟩ | ⟨hshm, hfree, hopen⟩
    · have hother : errno ≠ .einval := by
        rintro rfl
        rcases hwhy with hshm | ⟨_, heexist, _⟩
        · exact heinval hshm
        · cases heexist
      rw [hopen]
      refine .inl ⟨?_, .shmOpenFailed errno, if_pos hother⟩
      rcases hwhy with hshm | ⟨_, _, hname⟩
      · exact .inl (by simp [Calls.refusal, hshm])
      · exact .inr hname
    · rw [hopen]
      exact .inr ⟨hshm, hfree, rfl⟩
  | false =>
    have heinval : calls.shmOpen = some .einval := hanswers.einval.mpr hflag
    have hshm : openExclusive kernel w (.shm addr.shmName) (some .einval) = (w, .error .einval) := rfl
    rw [heinval, hshm]
    dsimp only
    rw [if_neg (by simp)]
    simp only [Calls.refusal, Bool.false_eq_true, if_false]
    cases hdirs : calls.createDirs with
    | some errno => exact .inl ⟨.inl (by simp), _, rfl⟩
    | none =>
      rcases openExclusive_cases kernel w (.file addr.filePath) calls.fileOpen with
        ⟨errno, hopen, hwhy⟩ | ⟨hfile, hfree, hopen⟩
      · rw [hopen]
        refine .inl ⟨?_, _, rfl⟩
        rcases hwhy with hfile | ⟨_, _, hname⟩
        · exact .inl (by simp [hfile])
        · exact .inr hname
      · rw [hopen]
        exact .inr ⟨by simp [hfile], hfree, rfl⟩

/-- Both open a new object under the same name, or neither does. -/
theorem openCreateShm_shown (h : Shows w names) (haddr : Accepted addr)
    (hanswers : Answers platform addr calls)
    (hflag : platform.accepts (named addr) = usedShmOpen) (id : Nat) :
    ((∃ error, openCreateShm kernel w addr calls = (w, .error error)) ∧ ∃ error,
      SegmentNames.openCreateShm platform names (named addr) id
        (calls.systemCalls usedShmOpen).refused = .error error) ∨
    (w.names.lookup (openedName addr usedShmOpen) = none ∧
      openCreateShm kernel w addr calls = (w.created kernel (openedName addr usedShmOpen),
        .ok ⟨kernel.newDescriptor w, usedShmOpen⟩) ∧
      SegmentNames.openCreateShm platform names (named addr) id
        (calls.systemCalls usedShmOpen).refused =
          .ok (names.insert (SegmentNames.openedName (named addr) usedShmOpen) ⟨id, 0⟩,
            usedShmOpen)) := by
  have hnameOf : platform.nameOf (named addr) =
      SegmentNames.openedName (named addr) usedShmOpen := by
    rw [Platform.nameOf, hflag]
  have hcalls : (calls.systemCalls usedShmOpen).refused = none ↔
      calls.refusal usedShmOpen = none := Option.map_eq_none_iff
  have hname : names.lookup (SegmentNames.openedName (named addr) usedShmOpen) = none ↔
      w.names.lookup (openedName addr usedShmOpen) = none := by
    rw [h addr haddr, Option.map_eq_none_iff]
  have hcases := @SegmentNames.openCreateShm_cases platform names (named addr) id
    (calls.systemCalls usedShmOpen).refused
  rw [hnameOf, ne_eq, ne_eq, hcalls, hname, hflag] at hcases
  rcases openCreateShm_answered hanswers hflag with ⟨hwhy, hopen⟩ | ⟨hcalls, hfree, hopen⟩
  · refine .inl ⟨hopen, ?_⟩
    rcases hcases with ⟨_, hrefused⟩ | ⟨hcalls, hfree, _⟩
    · exact hrefused
    · exact (hwhy.elim (fun h => h hcalls) fun h => h hfree).elim
  · refine .inr ⟨hfree, hopen, ?_⟩
    rcases hcases with ⟨hwhy, _⟩ | ⟨_, _, hcreated⟩
    · exact (hwhy.elim (fun h => h hcalls) fun h => h hfree).elim
    · exact hcreated

theorem layoutFor_named_error (hfits : 64 + 8 * maxReaders.toNat + T.align.toNat < 2 ^ 64)
    {error : RingError} (hlayout : layoutFor T capacity maxReaders = .error error) :
    ∃ error', SegmentNames.layoutFor (namedElement T) capacity.toNat maxReaders.toNat =
      .error error' := by
  cases hnames : SegmentNames.layoutFor (namedElement T) capacity.toNat maxReaders.toNat with
  | error error' => exact ⟨error', rfl⟩
  | ok layout =>
    obtain ⟨hreaders, hdata, htotal⟩ := SegmentNames.layoutFor_lt hnames
    have hok : layoutFor T capacity maxReaders =
        .ok ⟨.ofNat layout.readersOffset, .ofNat layout.dataOffset, .ofNat layout.totalSize⟩ := by
      rw [layoutFor_names hfits]
      simp only [UInt64.toNat_ofNat_of_lt' hreaders, UInt64.toNat_ofNat_of_lt' hdata,
        UInt64.toNat_ofNat_of_lt' htotal]
      exact hnames
    rw [hlayout] at hok
    cases hok

theorem size_initialise (map id : Nat) (header : Header) :
    ((initialise w map header).objects id).size = (w.objects id).size := by
  unfold initialise
  cases w.mappings.lookup map with
  | none => rfl
  | some mapping =>
    apply size_setObject
    rfl

theorem names_initialise (map : Nat) (header : Header) :
    (initialise w map header).names = w.names ∧
      (initialise w map header).descriptors = w.descriptors := by
  unfold initialise
  cases w.mappings.lookup map <;> exact ⟨rfl, rfl⟩

/-- The new object, still without a size, under the name that was free. -/
theorem Shows.created (h : Shows w names) (haddr : Accepted addr) (usedShmOpen : Bool) :
    Shows (w.created kernel (openedName addr usedShmOpen))
      (names.insert (SegmentNames.openedName (named addr) usedShmOpen)
        ⟨kernel.newObject w, 0⟩) := by
  refine h.update haddr usedShmOpen (some (kernel.newObject w)) (fun name => ?_) (fun name => ?_) ?_
  · exact lookup_insert_eq _ _ _ _
  · rw [lookup_insert_eq, Option.map_some, World.segment]
    simp only [World.created, Function.update_self]
    rfl
  · intro id hlive
    simp only [World.created, Function.update_of_ne (newObject_ne hlive)]

theorem Shows.sized (h : Shows w names) (haddr : Accepted addr) (usedShmOpen : Bool)
    (size : UInt64) :
    Shows (w.sized kernel (openedName addr usedShmOpen) size)
      ((names.insert (SegmentNames.openedName (named addr) usedShmOpen)
          ⟨kernel.newObject w, 0⟩).insert (SegmentNames.openedName (named addr) usedShmOpen)
        ⟨kernel.newObject w, size.toNat⟩) := by
  refine h.update haddr usedShmOpen (some (kernel.newObject w)) (fun name => ?_) (fun name => ?_) ?_
  · exact lookup_insert_eq _ _ _ _
  · rw [lookup_insert_eq, lookup_insert_eq, Option.map_some, World.segment]
    simp only [World.sized, World.setObject, Function.update_self]
    split <;> rfl
  · intro id hlive
    simp only [World.sized, World.setObject, World.created,
      Function.update_of_ne (newObject_ne hlive)]

/-- `create_with_readers` and the create of names, with the new object under the number
that the system gives it. -/
theorem createWithReaders_shown (h : Shows w names) (haddr : Accepted addr)
    (hanswers : Answers platform addr calls)
    (hfits : 64 + 8 * maxReaders.toNat + T.align.toNat < 2 ^ 64) :
    Shows (createWithReaders kernel w addr T capacity maxReaders calls).1
        (SegmentNames.createWithReaders platform names (named addr) (kernel.newObject w)
          (namedElement T) capacity.toNat maxReaders.toNat
          (calls.systemCalls (platform.accepts (named addr)))).1 ∧
      SameResult (SameWriter (createWithReaders kernel w addr T capacity maxReaders calls).1)
        (createWithReaders kernel w addr T capacity maxReaders calls).2
        (SegmentNames.createWithReaders platform names (named addr) (kernel.newObject w)
          (namedElement T) capacity.toNat maxReaders.toNat
          (calls.systemCalls (platform.accepts (named addr)))).2 := by
  unfold createWithReaders SegmentNames.createWithReaders
  cases hlayout : layoutFor T capacity maxReaders with
  | error error =>
    obtain ⟨error', herror⟩ := layoutFor_named_error hfits hlayout
    rw [herror]
    exact ⟨h, .error _ _⟩
  | ok layout =>
    have hnamed := (layoutFor_names hfits).mp hlayout
    rw [namedElement, hnamed]
    dsimp only
    generalize hflag : platform.accepts (named addr) = usedShmOpen
    rcases openCreateShm_shown h haddr hanswers hflag (kernel.newObject w) with
      ⟨⟨error, hopen⟩, error', hopen'⟩ | ⟨hfree, hopen, hopen'⟩
    · rw [hopen, hopen']
      exact ⟨h, .error _ _⟩
    rw [hopen, hopen']
    dsimp only [Calls.systemCalls]
    cases htruncate : calls.ftruncate with
    | some errno => exact ⟨h.created haddr usedShmOpen, .error _ _⟩
    | none =>
      rw [ftruncate_created]
      dsimp only [Option.map_none]
      have hsized := @Shows.sized kernel w names addr h haddr usedShmOpen layout.totalSize
      cases hmap : calls.mmap with
      | some errno =>
        exact ⟨(shmUnlink_shown hsized haddr fun hshm => hflag.trans hshm).1, .error _ _⟩
      | none =>
        simp only [mapShared, lookup_sized_descriptor]
        refine ⟨hsized.same (names_initialise _ _).1 fun id _ => ?_,
          .ok _ _ ⟨rfl, rfl, ?_⟩⟩
        · rw [size_initialise]
        · rw [(names_initialise _ _).2]
          exact @lookup_sized_descriptor kernel w (openedName addr usedShmOpen) layout.totalSize

end Creating

section Connecting
variable {kernel : Kernel} {platform : Platform} {w : World} {names : Names} {addr : Address}
  {T : ElementLayout} {calls : Calls} {id : Nat}

/-- The object that is found is the one the names lead to. -/
theorem openExistingShm_shown (h : Shows w names) (haddr : Accepted addr)
    (hanswers : Answers platform addr calls) (hfinds : Finds w addr calls id) :
    SegmentNames.openExistingShm platform names (named addr) = .ok (w.segment id) := by
  have hshm : names.lookup (.shm (named addr)) =
      (w.names.lookup (.shm addr.shmName)).map w.segment := h addr haddr true
  have hfile : names.lookup (.file (named addr)) =
      (w.names.lookup (.file addr.filePath)).map w.segment := h addr haddr false
  unfold SegmentNames.openExistingShm
  cases haccepts : platform.accepts (named addr) with
  | true =>
    rw [if_pos rfl, hshm]
    rcases hfinds with ⟨_, hname⟩ | ⟨hnot, _, hname⟩
    · rw [hname]
      rfl
    · rcases hnot with heinval | henoent | ⟨_, habsent⟩
      · rw [hanswers.einval, haccepts] at heinval
        cases heinval
      · exact (hanswers.enoent henoent).elim
      · rw [habsent, hfile, hname]
        rfl
  | false =>
    rw [if_neg Bool.false_ne_true, hfile]
    rcases hfinds with ⟨hopened, _⟩ | ⟨_, _, hname⟩
    · rw [hanswers.einval.mpr haccepts] at hopened
      cases hopened
    · rw [hname]
      rfl

theorem size_claimSlot (map slot : Nat) (writeSeq : UInt64) (id : Nat) :
    ((claimSlot w map slot writeSeq).objects id).size = (w.objects id).size := by
  unfold claimSlot
  cases w.mappings.lookup map with
  | none => rfl
  | some mapping =>
    apply size_setObject
    rfl

theorem names_claimSlot (map slot : Nat) (writeSeq : UInt64) :
    (claimSlot w map slot writeSeq).names = w.names ∧
      (claimSlot w map slot writeSeq).descriptors = w.descriptors := by
  unfold claimSlot
  cases w.mappings.lookup map <;> exact ⟨rfl, rfl⟩

/-- A reader has the object open that was found; names and sizes stay. -/
theorem Connected.keeps {after : World} {reader : Reader}
    (h : Connected kernel w id after reader) :
    after.names = w.names ∧ KeepsSizes w after ∧ after.descriptors.lookup reader.fd = some id := by
  obtain ⟨hfd, slot, writeSeq, rfl⟩ := h
  refine ⟨(names_claimSlot _ _ _).1, fun id' _ => size_claimSlot _ _ _ id', ?_⟩
  rw [hfd, (names_claimSlot _ _ _).2]
  exact lookup_opened_descriptor

variable (kernel w addr T calls) in
/-- `connect` makes no name and takes none away, and every object keeps its size. -/
theorem connect_keeps :
    (connect kernel w addr T calls).1.names = w.names ∧
      KeepsSizes w (connect kernel w addr T calls).1 := by
  rcases connect_cases kernel w addr T calls with
    ⟨_, ⟨after, error, hconnect, hrestored⟩ | ⟨id, after, reader, _, _, hconnect, hconnected⟩⟩ |
    ⟨_, id, size, error, hconnect⟩
  · rw [hconnect]
    exact ⟨hrestored.names, fun id hlive => by rw [hrestored.objects id hlive]⟩
  · rw [hconnect]
    exact ⟨hconnected.keeps.1, hconnected.keeps.2.1⟩
  · rw [hconnect]
    exact ⟨rfl, fun _ _ => rfl⟩

theorem finds_of_connect {reader : Reader} (h : (connect kernel w addr T calls).2 = .ok reader) :
    ∃ id, Finds w addr calls id ∧ calls.mmap = none ∧
      (connect kernel w addr T calls).1.descriptors.lookup reader.fd = some id := by
  rcases connect_cases kernel w addr T calls with
    ⟨_, ⟨after, error, hconnect, _⟩ | ⟨id, after, made, hfinds, hmap, hconnect, hconnected⟩⟩ |
    ⟨_, id, size, error, hconnect⟩
  · rw [hconnect] at h
    cases h
  · rw [hconnect] at h ⊢
    cases h
    exact ⟨id, hfinds, hmap, hconnected.keeps.2.2⟩
  · rw [hconnect] at h
    cases h

/-- `connect` leaves the names as they are, and a reader that it makes has the segment open
that the connect of names finds. Nothing is mapped with a length of zero. -/
theorem connect_shown (h : Shows w names) (haddr : Accepted addr)
    (hanswers : Answers platform addr calls)
    (hmmap : ∀ id, Finds w addr calls id → (w.objects id).size = 0 → calls.mmap ≠ none) :
    Shows (connect kernel w addr T calls).1 names ∧
      ∀ reader, (connect kernel w addr T calls).2 = .ok reader → ∃ segment,
        SegmentNames.connect platform names (named addr) = .ok segment ∧
        (connect kernel w addr T calls).1.descriptors.lookup reader.fd = some segment.id := by
  obtain ⟨hnames, hsizes⟩ := connect_keeps kernel w addr T calls
  refine ⟨h.same hnames hsizes, fun reader hreader => ?_⟩
  obtain ⟨id, hfinds, hmap, hfd⟩ := finds_of_connect hreader
  refine ⟨w.segment id, ?_, hfd⟩
  rw [SegmentNames.connect, openExistingShm_shown h haddr hanswers hfinds]
  refine if_neg fun hempty => hmmap id hfinds ?_ hmap
  exact UInt64.toNat_inj.mp hempty

end Connecting

section Runs
variable {kernel : Kernel} {platform : Platform}

/-- `unlink` is what the drop of a writer does. -/
inductive Operation where
  | create (addr : Address) (T : ElementLayout) (capacity maxReaders : UInt64) (calls : Calls)
  | connect (addr : Address) (T : ElementLayout) (calls : Calls)
  | unlink (addr : Address) (usedShmOpen : Bool)

/-- Both models side by side. -/
structure Sides where
  world : World
  names : Names

/-- A new object has the same number on both sides. -/
def Sides.step (kernel : Kernel) (platform : Platform) (s : Sides) : Operation → Sides
  | .create addr T capacity maxReaders calls =>
    ⟨(createWithReaders kernel s.world addr T capacity maxReaders calls).1,
     (SegmentNames.createWithReaders platform s.names (named addr) (kernel.newObject s.world)
       (namedElement T) capacity.toNat maxReaders.toNat
       (calls.systemCalls (platform.accepts (named addr)))).1⟩
  | .connect addr T calls => ⟨(connect kernel s.world addr T calls).1, s.names⟩
  | .unlink addr usedShmOpen =>
    ⟨(shmUnlink s.world addr usedShmOpen).1,
     (SegmentNames.shmUnlink platform s.names (named addr) usedShmOpen).1⟩

/-- The address is accepted, the calls answer as on this platform, and the layout does
not wrap. -/
def Operation.Proper (platform : Platform) : Operation → Prop
  | .create addr T _ maxReaders calls =>
    Accepted addr ∧ Answers platform addr calls ∧
      64 + 8 * maxReaders.toNat + T.align.toNat < 2 ^ 64
  | .connect _ _ _ => True
  | .unlink addr usedShmOpen =>
    Accepted addr ∧ (usedShmOpen = true → platform.accepts (named addr) = true)

theorem shows_empty {w : World} (h : w.names = ∅) : Shows w ∅ := by
  intro addr _ usedShmOpen
  rw [h]
  rfl

theorem Shows.step {s : Sides} (h : Shows s.world s.names) {i : Operation}
    (hproper : i.Proper platform) :
    Shows (s.step kernel platform i).world (s.step kernel platform i).names := by
  cases i with
  | create addr T capacity maxReaders calls =>
    obtain ⟨haddr, hanswers, hfits⟩ := hproper
    exact (createWithReaders_shown h haddr hanswers hfits).1
  | connect addr T calls =>
    obtain ⟨hnames, hsizes⟩ := connect_keeps kernel s.world addr T calls
    exact h.same hnames hsizes
  | unlink addr usedShmOpen => exact (shmUnlink_shown h hproper.1 hproper.2).1

/-- Over every run of creates, connects and drops the names are those of the model of names
alone. -/
theorem shows_run {s : Sides} (h : Shows s.world s.names) {is : List Operation}
    (hproper : ∀ i ∈ is, i.Proper platform) :
    Shows (run (Sides.step kernel platform) s is).world
      (run (Sides.step kernel platform) s is).names := by
  induction is generalizing s with
  | nil => exact h
  | cons i is ih =>
    obtain ⟨hi, his⟩ := List.forall_mem_cons.mp hproper
    exact ih (h.step hi) his

/-- A reader made after any such run has the segment open that the names lead to. -/
theorem connect_after_run {s : Sides} (h : Shows s.world s.names) {is : List Operation}
    (hproper : ∀ i ∈ is, i.Proper platform) {addr : Address} {T : ElementLayout} {calls : Calls}
    (haddr : Accepted addr) (hanswers : Answers platform addr calls)
    (hmmap : ∀ id, Finds (run (Sides.step kernel platform) s is).world addr calls id →
      ((run (Sides.step kernel platform) s is).world.objects id).size = 0 → calls.mmap ≠ none)
    {after : World} {reader : Reader}
    (hconnect : connect kernel (run (Sides.step kernel platform) s is).world addr T calls =
      (after, .ok reader)) :
    ∃ segment, SegmentNames.connect platform (run (Sides.step kernel platform) s is).names
        (named addr) = .ok segment ∧ after.descriptors.lookup reader.fd = some segment.id := by
  have hshown := (connect_shown (shows_run h hproper) haddr hanswers hmmap).2 reader
    (by rw [hconnect])
  rw [hconnect] at hshown
  exact hshown

end Runs

end Nnxt.SegmentCalls
