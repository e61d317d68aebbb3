import Nnxt.SegmentCalls
import Nnxt.SoundLayout

/-!
# What a failed open leaves behind

Every exit of `create_with_readers` and `connect` is matched with what was acquired
up to it. Two exits give back less: a name stays after a refused `ftruncate`, a
mapping and a descriptor after a layout that cannot be computed.
-/

namespace Nnxt.SegmentCalls

set_option autoImplicit false

open HashMap MemoryLayout
open QueueAddress (Address)
open SegmentNames (Errno)

/-- The names let `open_create_shm` make a new object, and no call refuses. -/
def Creates (w : World) (addr : Address) (calls : Calls) : Prop :=
  (calls.shmOpen = none ∧ w.names.lookup (.shm addr.shmName) = none) ∨
    (calls.shmOpen = some .einval ∧ calls.createDirs = none ∧ calls.fileOpen = none ∧
      w.names.lookup (.file addr.filePath) = none)

/-- `open_existing_shm` goes on to the file. -/
def NotShared (w : World) (addr : Address) (calls : Calls) : Prop :=
  calls.shmOpen = some .einval ∨ calls.shmOpen = some .enoent ∨
    (calls.shmOpen = none ∧ w.names.lookup (.shm addr.shmName) = none)

/-- The object `open_existing_shm` opens. -/
def Finds (w : World) (addr : Address) (calls : Calls) (id : Nat) : Prop :=
  (calls.shmOpen = none ∧ w.names.lookup (.shm addr.shmName) = some id) ∨
    (NotShared w addr calls ∧ calls.fileOpen = none ∧
      w.names.lookup (.file addr.filePath) = some id)

/-- The segment is opened under a new name and cannot be given its size. -/
def TruncateRefused (w : World) (addr : Address) (T : ElementLayout)
    (capacity maxReaders : UInt64) (calls : Calls) : Prop :=
  (∃ layout, layoutFor T capacity maxReaders = .ok layout) ∧ Creates w addr calls ∧
    ∃ errno, calls.ftruncate = some errno

def Recognised (T : ElementLayout) (header : Header) : Prop :=
  header.magic = magic ∧ header.version = version ∧ header.elementSize = T.size

/-- A segment with the right magic, version and element size is mapped, whose capacity
and number of readers have no layout. -/
def LayoutRefused (w : World) (addr : Address) (T : ElementLayout) (calls : Calls) : Prop :=
  ∃ id, Finds w addr calls id ∧ calls.fstat = none ∧ calls.mmap = none ∧
    Recognised T (w.objects id).header ∧
    ∃ error, layoutFor T (w.objects id).header.capacity (w.objects id).header.maxReaders = .error error

/-- What was there before is as it was, and nothing else is named, open or mapped. -/
structure Restored (before after : World) : Prop where
  names : after.names = before.names
  descriptors : after.descriptors = before.descriptors
  mappings : after.mappings = before.mappings
  objects : ∀ id, before.Live id → after.objects id = before.objects id

/-- And a later create on the address is refused only where it was before. -/
structure LeavesNothing (kernel : Kernel) (addr : Address) (before after : World) : Prop
    extends Restored before after where
  createsAgain : ∀ T capacity maxReaders calls,
    (createWithReaders kernel after addr T capacity maxReaders calls).2 = .error .addressInUse →
      (createWithReaders kernel before addr T capacity maxReaders calls).2 = .error .addressInUse

def CreateCleans (kernel : Kernel) (w : World) (addr : Address) (T : ElementLayout)
    (capacity maxReaders : UInt64) (calls : Calls) : Prop :=
  ∀ error, (createWithReaders kernel w addr T capacity maxReaders calls).2 = .error error →
    LeavesNothing kernel addr w (createWithReaders kernel w addr T capacity maxReaders calls).1

def ConnectCleans (kernel : Kernel) (w : World) (addr : Address) (T : ElementLayout)
    (calls : Calls) : Prop :=
  ∀ error, (connect kernel w addr T calls).2 = .error error →
    LeavesNothing kernel addr w (connect kernel w addr T calls).1

section Opening
variable {kernel : Kernel} {w : World} {addr : Address} {calls : Calls} {name : Name}
  {refused : Option Errno} {id id' : Nat}

variable (kernel w name refused) in
theorem openExclusive_cases :
    (∃ errno, openExclusive kernel w name refused = (w, .error errno) ∧
      (refused = some errno ∨ (refused = none ∧ errno = .eexist ∧ w.names.lookup name ≠ none))) ∨
    (refused = none ∧ w.names.lookup name = none ∧
      openExclusive kernel w name refused = (w.created kernel name, .ok (kernel.newDescriptor w))) := by
  unfold openExclusive
  cases refused with
  | some errno => exact .inl ⟨errno, rfl, .inl rfl⟩
  | none =>
    cases hname : w.names.lookup name with
    | some id => exact .inl ⟨.eexist, rfl, .inr ⟨rfl, rfl, by simp⟩⟩
    | none => exact .inr ⟨rfl, rfl, rfl⟩

variable (kernel w name refused) in
theorem openExisting_cases :
    (∃ errno, openExisting kernel w name refused = (w, .error errno) ∧
      (refused = some errno ∨ (refused = none ∧ errno = .enoent ∧ w.names.lookup name = none))) ∨
    (∃ id, refused = none ∧ w.names.lookup name = some id ∧
      openExisting kernel w name refused = (w.opened kernel id, .ok (kernel.newDescriptor w))) := by
  unfold openExisting
  cases refused with
  | some errno => exact .inl ⟨errno, rfl, .inl rfl⟩
  | none =>
    cases hname : w.names.lookup name with
    | none => exact .inl ⟨.enoent, rfl, .inr ⟨rfl, rfl, rfl⟩⟩
    | some id => exact .inr ⟨id, rfl, rfl, rfl⟩

/-- After `EINVAL` the file decides. -/
theorem creates_iff_of_einval (hshm : calls.shmOpen = some .einval) :
    Creates w addr calls ↔ calls.createDirs = none ∧ calls.fileOpen = none ∧
      w.names.lookup (.file addr.filePath) = none := by
  simp [Creates, hshm]

theorem not_creates_of_refused {errno : Errno} (hshm : calls.shmOpen = some errno)
    (hother : errno ≠ .einval) : ¬ Creates w addr calls := by
  simp [Creates, hshm, hother]

theorem not_creates_of_taken (hshm : calls.shmOpen = none)
    (hname : w.names.lookup (.shm addr.shmName) ≠ none) : ¬ Creates w addr calls := by
  simp [Creates, hshm, hname]

/-- The file after `EINVAL`: a new one under a free path, or nothing at all. -/
theorem openCreateShm_of_einval (hshm : calls.shmOpen = some .einval)
    (hopen : openExclusive kernel w (.shm addr.shmName) calls.shmOpen = (w, .error .einval)) :
    (¬ Creates w addr calls ∧ ∃ error : Error,
      openCreateShm kernel w addr calls = (w, .error error) ∧
        error.asAddressInUse = .addressInUse) ∨
    (Creates w addr calls ∧ ∃ usedShmOpen,
      w.names.lookup (openedName addr usedShmOpen) = none ∧
        openCreateShm kernel w addr calls = (w.created kernel (openedName addr usedShmOpen),
          .ok ⟨kernel.newDescriptor w, usedShmOpen⟩)) := by
  rw [creates_iff_of_einval hshm, openCreateShm, hopen]
  dsimp only
  rw [if_neg (by simp)]
  cases hdirs : calls.createDirs with
  | some errno => exact .inl ⟨(fun h => by cases h.1), _, rfl, rfl⟩
  | none =>
    rcases openExclusive_cases kernel w (.file addr.filePath) calls.fileOpen with
      ⟨errno, hopen, hwhy⟩ | ⟨hfile, hfree, hopen⟩
    · rw [hopen]
      refine .inl ⟨?_, _, rfl, rfl⟩
      rintro ⟨_, hfile, hfree⟩
      rcases hwhy with hwhy | ⟨_, _, hname⟩
      · rw [hfile] at hwhy
        cases hwhy
      · exact hname hfree
    · rw [hopen]
      exact .inr ⟨⟨rfl, hfile, hfree⟩, false, hfree, rfl⟩

variable (kernel w addr calls) in
/-- `open_create_shm` makes a new object under a free name, or nothing at all. -/
theorem openCreateShm_cases :
    (¬ Creates w addr calls ∧ ∃ error : Error,
      openCreateShm kernel w addr calls = (w, .error error) ∧
        error.asAddressInUse = .addressInUse) ∨
    (Creates w addr calls ∧ ∃ usedShmOpen,
      w.names.lookup (openedName addr usedShmOpen) = none ∧
        openCreateShm kernel w addr calls = (w.created kernel (openedName addr usedShmOpen),
          .ok ⟨kernel.newDescriptor w, usedShmOpen⟩)) := by
  rcases openExclusive_cases kernel w (.shm addr.shmName) calls.shmOpen with
    ⟨errno, hopen, hwhy⟩ | ⟨hshm, hfree, hopen⟩
  · by_cases heinval : errno = .einval
    · subst heinval
      rcases hwhy with hshm | ⟨_, heexist, _⟩
      · exact openCreateShm_of_einval hshm hopen
      · cases heexist
    · rw [openCreateShm, hopen]
      refine .inl ⟨?_, .shmOpenFailed errno, if_pos heinval, rfl⟩
      rcases hwhy with hshm | ⟨hshm, _, hname⟩
      · exact not_creates_of_refused hshm heinval
      · exact not_creates_of_taken hshm hname
  · rw [openCreateShm, hopen]
    exact .inr ⟨.inl ⟨hshm, hfree⟩, true, hfree, rfl⟩

theorem Finds.unique (h : Finds w addr calls id) (h' : Finds w addr calls id') : id = id' := by
  simp only [Finds, NotShared] at h h'
  grind

variable (kernel w addr calls) in
/-- `open_existing_shm` opens the object that is found, or nothing. -/
theorem openExistingShm_cases :
    ((∀ id, ¬ Finds w addr calls id) ∧ ∃ error,
      openExistingShm kernel w addr calls = (w, .error error)) ∨
    (∃ id usedShmOpen, Finds w addr calls id ∧
      openExistingShm kernel w addr calls =
        (w.opened kernel id, .ok ⟨kernel.newDescriptor w, usedShmOpen⟩)) := by
  unfold openExistingShm
  rcases openExisting_cases kernel w (.shm addr.shmName) calls.shmOpen with
    ⟨errno, hopen, hwhy⟩ | ⟨id, hshm, hname, hopen⟩
  · rw [hopen]
    by_cases hother : errno ≠ .einval ∧ errno ≠ .enoent
    · refine .inl ⟨?_, .shmOpenFailed errno, if_pos hother⟩
      simp only [Finds, NotShared]
      grind
    · have hfile : NotShared w addr calls := by
        simp only [NotShared]
        grind
      dsimp only
      rw [if_neg hother]
      rcases openExisting_cases kernel w (.file addr.filePath) calls.fileOpen with
        ⟨errno', hopen', hwhy'⟩ | ⟨id, hopened, hname, hopen'⟩
      · rw [hopen']
        refine .inl ⟨?_, .notFound, rfl⟩
        simp only [Finds, NotShared] at hfile ⊢
        grind
      · rw [hopen']
        exact .inr ⟨id, false, .inr ⟨hfile, hopened, hname⟩, rfl⟩
  · rw [hopen]
    exact .inr ⟨id, true, .inl ⟨hshm, hname⟩, rfl⟩

end Opening

section Creating
variable {kernel : Kernel} {w : World} {addr : Address} {T : ElementLayout}
  {capacity maxReaders : UInt64} {calls : Calls} {name : Name} {usedShmOpen : Bool}

theorem newObject_ne {id : Nat} (hlive : w.Live id) : id ≠ kernel.newObject w :=
  fun h => kernel.newObject_free w (h ▸ hlive)

@[simp] theorem lookup_created_descriptor :
    (w.created kernel name).descriptors.lookup (kernel.newDescriptor w) = some (kernel.newObject w) :=
  AList.lookup_insert _

theorem lookup_created_name : (w.created kernel name).names.lookup name = some (kernel.newObject w) :=
  AList.lookup_insert _

/-- The new object has its size. -/
def World.sized (kernel : Kernel) (w : World) (name : Name) (size : UInt64) : World :=
  (w.created kernel name).setObject (kernel.newObject w)
    { (w.created kernel name).objects (kernel.newObject w) with size := size }

theorem ftruncate_created (size : UInt64) :
    ftruncate (w.created kernel name) (kernel.newDescriptor w) size none =
      (w.sized kernel name size, .ok ()) := by
  simp only [ftruncate, lookup_created_descriptor, World.sized]

theorem lookup_sized_descriptor (size : UInt64) :
    (w.sized kernel name size).descriptors.lookup (kernel.newDescriptor w) =
      some (kernel.newObject w) :=
  AList.lookup_insert _

/-- Unlinking and closing give back what a create has acquired. -/
theorem restored_of_unlink (hfree : w.names.lookup (openedName addr usedShmOpen) = none)
    (size : UInt64) :
    Restored w (closeFd (shmUnlink (w.sized kernel (openedName addr usedShmOpen) size) addr
      usedShmOpen).1 (kernel.newDescriptor w)) := by
  have hname : (w.sized kernel (openedName addr usedShmOpen) size).names.lookup
      (openedName addr usedShmOpen) = some (kernel.newObject w) := lookup_created_name
  simp only [shmUnlink, hname]
  refine ⟨erase_insert_of_none hfree _, erase_insert_of_none (kernel.newDescriptor_free w) _, rfl, ?_⟩
  intro id hlive
  have hne : id ≠ kernel.newObject w := newObject_ne hlive
  simp only [closeFd, World.sized, World.setObject, World.created, Function.update_of_ne hne]

variable (kernel w addr T capacity maxReaders calls) in
/-- Every exit of `create_with_readers`. -/
theorem createWithReaders_cases :
    ((∃ error, layoutFor T capacity maxReaders = .error error) ∧ ∃ error,
      createWithReaders kernel w addr T capacity maxReaders calls = (w, .error error) ∧
        error ≠ .addressInUse) ∨
    ((∃ layout, layoutFor T capacity maxReaders = .ok layout) ∧
      ((¬ Creates w addr calls ∧
        createWithReaders kernel w addr T capacity maxReaders calls = (w, .error .addressInUse)) ∨
      (Creates w addr calls ∧ ∃ errno usedShmOpen, calls.ftruncate = some errno ∧
        w.names.lookup (openedName addr usedShmOpen) = none ∧
        createWithReaders kernel w addr T capacity maxReaders calls =
          (closeFd (w.created kernel (openedName addr usedShmOpen)) (kernel.newDescriptor w),
            .error (.truncateFailed errno))) ∨
      (Creates w addr calls ∧ calls.ftruncate = none ∧ ∃ errno after,
        createWithReaders kernel w addr T capacity maxReaders calls =
          (after, .error (.mmapFailed errno)) ∧ Restored w after) ∨
      (Creates w addr calls ∧ calls.ftruncate = none ∧ ∃ after writer,
        createWithReaders kernel w addr T capacity maxReaders calls = (after, .ok writer)))) := by
  unfold createWithReaders
  cases hlayout : layoutFor T capacity maxReaders with
  | error error =>
    refine .inl ⟨⟨error, rfl⟩, _, rfl, ?_⟩
    cases error <;> simp [Error.ofRing]
  | ok layout =>
    refine .inr ⟨⟨layout, rfl⟩, ?_⟩
    dsimp only
    rcases openCreateShm_cases kernel w addr calls with
      ⟨hnot, error, hopen, haddress⟩ | ⟨hcreates, usedShmOpen, hfree, hopen⟩
    · rw [hopen]
      exact .inl ⟨hnot, by rw [← haddress]⟩
    · rw [hopen]
      dsimp only
      right
      cases htruncate : calls.ftruncate with
      | some errno => exact .inl ⟨hcreates, errno, usedShmOpen, rfl, hfree, rfl⟩
      | none =>
        right
        rw [ftruncate_created]
        cases hmap : calls.mmap with
        | some errno => exact .inl ⟨hcreates, rfl, errno, _, rfl, restored_of_unlink hfree _⟩
        | none =>
          simp only [mapShared, lookup_sized_descriptor]
          exact .inr ⟨hcreates, trivial, _, _, rfl⟩

end Creating

section Connecting
variable {kernel : Kernel} {w : World} {addr : Address} {T : ElementLayout} {calls : Calls}
  {id : Nat} {size : UInt64} {usedShmOpen : Bool}

/-- The state after the opened object was mapped. -/
def World.openedAndMapped (kernel : Kernel) (w : World) (id : Nat) (size : UInt64) : World :=
  { w.opened kernel id with
    mappings := w.mappings.insert (kernel.newMapping (w.opened kernel id)) ⟨id, size⟩ }

theorem lookup_opened_descriptor :
    (w.opened kernel id).descriptors.lookup (kernel.newDescriptor w) = some id :=
  AList.lookup_insert _

theorem restored_of_close : Restored w (closeFd (w.opened kernel id) (kernel.newDescriptor w)) :=
  ⟨rfl, erase_insert_of_none (kernel.newDescriptor_free w) _, rfl, fun _ _ => rfl⟩

theorem restored_of_unmap :
    Restored w (closeFd (unmapShared (w.openedAndMapped kernel id size)
      (kernel.newMapping (w.opened kernel id))) (kernel.newDescriptor w)) :=
  ⟨rfl, erase_insert_of_none (kernel.newDescriptor_free w) _,
    erase_insert_of_none (kernel.newMapping_free (w.opened kernel id)) _, fun _ _ => rfl⟩

theorem mapped_openedAndMapped :
    (w.openedAndMapped kernel id size).mapped (kernel.newMapping (w.opened kernel id)) =
      w.objects id := by
  have hlookup : (w.openedAndMapped kernel id size).mappings.lookup
      (kernel.newMapping (w.opened kernel id)) = some ⟨id, size⟩ := AList.lookup_insert _
  simp only [World.mapped, hlookup]
  rfl

theorem fstat_opened :
    fstat (w.opened kernel id) (kernel.newDescriptor w) none = .ok (w.objects id).size := by
  simp only [fstat, lookup_opened_descriptor]
  rfl

theorem mapShared_opened :
    mapShared kernel (w.opened kernel id) (kernel.newDescriptor w) size none =
      (w.openedAndMapped kernel id size, .ok (kernel.newMapping (w.opened kernel id))) := by
  simp only [mapShared, lookup_opened_descriptor]
  rfl

theorem layoutRefused_iff (hfinds : Finds w addr calls id) :
    LayoutRefused w addr T calls ↔ calls.fstat = none ∧ calls.mmap = none ∧
      Recognised T (w.objects id).header ∧ ∃ error,
        layoutFor T (w.objects id).header.capacity (w.objects id).header.maxReaders =
          .error error := by
  constructor
  · rintro ⟨id', hfinds', hcalls⟩
    rw [hfinds.unique hfinds']
    exact hcalls
  · intro hcalls
    exact ⟨id, hfinds, hcalls⟩

/-- The object is open and mapped, and one of its slots is the reader's. -/
def Connected (kernel : Kernel) (w : World) (id : Nat) (after : World) (reader : Reader) : Prop :=
  reader.fd = kernel.newDescriptor w ∧ ∃ slot writeSeq,
    after = claimSlot (w.openedAndMapped kernel id (w.objects id).size)
      (kernel.newMapping (w.opened kernel id)) slot writeSeq

/-- A call that fails to open, to stat or to map gives back what it has opened. -/
theorem connect_unmapped (hfinds : Finds w addr calls id)
    (hopen : openExistingShm kernel w addr calls =
      (w.opened kernel id, .ok ⟨kernel.newDescriptor w, usedShmOpen⟩))
    (hcalls : calls.fstat ≠ none ∨ calls.mmap ≠ none) :
    ¬ LayoutRefused w addr T calls ∧
      ∃ after error, connect kernel w addr T calls = (after, .error error) ∧ Restored w after := by
  rw [layoutRefused_iff hfinds, connect, hopen]
  dsimp only
  cases hstat : calls.fstat with
  | some errno => exact ⟨fun h => (by cases h.1), _, _, rfl, restored_of_close⟩
  | none =>
    rw [fstat_opened]
    dsimp only
    cases hmap : calls.mmap with
    | some errno => exact ⟨fun h => (by cases h.2.1), _, _, rfl, restored_of_close⟩
    | none => exact (hcalls.elim (fun h => h hstat) fun h => h hmap).elim

/-- The exits of `connect` on a mapped segment, the one on the layout last. -/
theorem connect_mapped (hfinds : Finds w addr calls id)
    (hopen : openExistingShm kernel w addr calls =
      (w.opened kernel id, .ok ⟨kernel.newDescriptor w, usedShmOpen⟩))
    (hstat : calls.fstat = none) (hmap : calls.mmap = none) :
    (¬ LayoutRefused w addr T calls ∧
      ((∃ after error, connect kernel w addr T calls = (after, .error error) ∧ Restored w after) ∨
        ∃ after reader, connect kernel w addr T calls = (after, .ok reader) ∧
          Connected kernel w id after reader)) ∨
    (LayoutRefused w addr T calls ∧ ∃ id size error,
      connect kernel w addr T calls = (w.openedAndMapped kernel id size, .error error)) := by
  rw [layoutRefused_iff hfinds, connect, hopen]
  dsimp only
  rw [hstat, fstat_opened]
  dsimp only
  rw [hmap, mapShared_opened]
  dsimp only
  rw [mapped_openedAndMapped]
  generalize (w.objects id).header = header
  by_cases hmagic : header.magic ≠ magic ∨ header.version ≠ version
  · rw [if_pos hmagic]
    refine .inl ⟨?_, .inl ⟨_, _, rfl, restored_of_unmap⟩⟩
    rintro ⟨_, _, ⟨hsame, hversion, _⟩, _⟩
    exact hmagic.elim (fun h => h hsame) fun h => h hversion
  rw [if_neg hmagic]
  by_cases hsize : header.elementSize ≠ T.size
  · rw [if_pos hsize]
    refine .inl ⟨?_, .inl ⟨_, _, rfl, restored_of_unmap⟩⟩
    rintro ⟨_, _, ⟨_, _, hsame⟩, _⟩
    exact hsize hsame
  rw [if_neg hsize]
  cases hlayout : layoutFor T header.capacity header.maxReaders with
  | error error =>
    rw [not_or, Decidable.not_not, Decidable.not_not] at hmagic
    exact .inr ⟨⟨rfl, rfl, ⟨hmagic.1, hmagic.2, Decidable.not_not.mp hsize⟩, error, rfl⟩,
      id, _, _, rfl⟩
  | ok layout =>
    dsimp only
    refine .inl ⟨?_, ?_⟩
    · rintro ⟨_, _, _, error, herror⟩
      cases herror
    · by_cases hshort : (w.objects id).size < layout.totalSize
      · rw [if_pos hshort]
        exact .inl ⟨_, _, rfl, restored_of_unmap⟩
      rw [if_neg hshort]
      cases scan (w.objects id).slots header.maxReaders.toNat 0 with
      | none => exact .inl ⟨_, _, rfl, restored_of_unmap⟩
      | some slot => exact .inr ⟨_, _, rfl, rfl, slot, _, rfl⟩

variable (kernel w addr T calls) in
/-- Every exit of `connect`. -/
theorem connect_cases :
    (¬ LayoutRefused w addr T calls ∧
      ((∃ after error, connect kernel w addr T calls = (after, .error error) ∧ Restored w after) ∨
        ∃ id after reader, Finds w addr calls id ∧ calls.mmap = none ∧
          connect kernel w addr T calls = (after, .ok reader) ∧ Connected kernel w id after reader)) ∨
    (LayoutRefused w addr T calls ∧ ∃ id size error,
      connect kernel w addr T calls = (w.openedAndMapped kernel id size, .error error)) := by
  rcases openExistingShm_cases kernel w addr calls with
    ⟨hnot, error, hopen⟩ | ⟨id, usedShmOpen, hfinds, hopen⟩
  · rw [connect, hopen]
    refine .inl ⟨?_, .inl ⟨w, error, rfl, rfl, rfl, rfl, fun _ _ => rfl⟩⟩
    rintro ⟨id, hfinds, _⟩
    exact hnot id hfinds
  · by_cases hcalls : calls.fstat ≠ none ∨ calls.mmap ≠ none
    · obtain ⟨hnot, hexit⟩ := @connect_unmapped kernel w addr T calls id usedShmOpen hfinds hopen hcalls
      exact .inl ⟨hnot, .inl hexit⟩
    · rw [not_or, Decidable.not_not, Decidable.not_not] at hcalls
      rcases connect_mapped hfinds hopen hcalls.1 hcalls.2 with
        ⟨hnot, hfailed | ⟨after, reader, hconnect, hconnected⟩⟩ | hrefused
      · exact .inl ⟨hnot, .inl hfailed⟩
      · exact .inl ⟨hnot, .inr ⟨id, after, reader, hfinds, hcalls.2, hconnect, hconnected⟩⟩
      · exact .inr hrefused

end Connecting

section LeavesNothing
variable {kernel : Kernel} {w w' : World} {addr : Address} {T : ElementLayout}
  {capacity maxReaders : UInt64} {calls : Calls}

/-- A create is refused by the names alone, besides the calls. -/
theorem addressInUse_iff :
    (createWithReaders kernel w addr T capacity maxReaders calls).2 = .error .addressInUse ↔
      (∃ layout, layoutFor T capacity maxReaders = .ok layout) ∧ ¬ Creates w addr calls := by
  rcases createWithReaders_cases kernel w addr T capacity maxReaders calls with
    ⟨⟨error, hlayout⟩, error', hcreate, hother⟩ | ⟨hlayout, hcases⟩
  · rw [hcreate]
    refine iff_of_false (fun h => hother (Except.error.inj h)) ?_
    rintro ⟨⟨layout, hok⟩, _⟩
    rw [hlayout] at hok
    cases hok
  · rcases hcases with ⟨hnot, hcreate⟩ | ⟨hcreates, errno, _, _, _, hcreate⟩ |
      ⟨hcreates, _, errno, _, hcreate, _⟩ | ⟨hcreates, _, _, _, hcreate⟩
    · rw [hcreate]
      exact iff_of_true rfl ⟨hlayout, hnot⟩
    all_goals
      rw [hcreate]
      exact iff_of_false (fun h => by cases h) fun h => h.2 hcreates

theorem Restored.leavesNothing (h : Restored w w') : LeavesNothing kernel addr w w' := by
  refine ⟨h, ?_⟩
  intro T capacity maxReaders calls hrefused
  rw [addressInUse_iff] at hrefused ⊢
  have hcreates : Creates w' addr calls ↔ Creates w addr calls := by
    simp only [Creates, h.names]
  exact ⟨hrefused.1, fun hw => hrefused.2 (hcreates.mpr hw)⟩

theorem restored_self : Restored w w := ⟨rfl, rfl, rfl, fun _ _ => rfl⟩

/-- The name of the new object is still there. -/
theorem not_restored_of_created {name : Name} (hfree : w.names.lookup name = none) :
    ¬ Restored w (closeFd (w.created kernel name) (kernel.newDescriptor w)) := by
  intro h
  have hnames : (w.created kernel name).names = w.names := h.names
  rw [← hnames, lookup_created_name] at hfree
  cases hfree

/-- The new descriptor is still open. -/
theorem not_restored_of_mapped {id : Nat} {size : UInt64} :
    ¬ Restored w (w.openedAndMapped kernel id size) := by
  intro h
  have hdescriptors : (w.opened kernel id).descriptors = w.descriptors := h.descriptors
  have hfree := kernel.newDescriptor_free w
  rw [← hdescriptors, lookup_opened_descriptor] at hfree
  cases hfree

theorem createCleans_iff :
    CreateCleans kernel w addr T capacity maxReaders calls ↔
      ¬ TruncateRefused w addr T capacity maxReaders calls := by
  unfold CreateCleans
  rcases createWithReaders_cases kernel w addr T capacity maxReaders calls with
    ⟨⟨error, hlayout⟩, error', hcreate, _⟩ | ⟨hlayout, hcases⟩
  · rw [hcreate]
    refine iff_of_true (fun _ _ => restored_self.leavesNothing) ?_
    rintro ⟨⟨layout, hok⟩, _⟩
    rw [hlayout] at hok
    cases hok
  · rcases hcases with ⟨hnot, hcreate⟩ | ⟨hcreates, errno, usedShmOpen, hrefused, hfree, hcreate⟩ |
      ⟨_, hgiven, errno, after, hcreate, hrestored⟩ | ⟨_, hgiven, after, writer, hcreate⟩
    · rw [hcreate]
      exact iff_of_true (fun _ _ => restored_self.leavesNothing) fun h => hnot h.2.1
    · rw [hcreate]
      refine iff_of_false ?_ fun h => h ⟨hlayout, hcreates, errno, hrefused⟩
      exact fun h => not_restored_of_created hfree (h _ rfl).toRestored
    · rw [hcreate]
      refine iff_of_true (fun _ _ => hrestored.leavesNothing) ?_
      rintro ⟨_, _, _, hrefused⟩
      rw [hgiven] at hrefused
      cases hrefused
    · rw [hcreate]
      refine iff_of_true (fun _ h => by cases h) ?_
      rintro ⟨_, _, _, hrefused⟩
      rw [hgiven] at hrefused
      cases hrefused

theorem connectCleans_iff :
    ConnectCleans kernel w addr T calls ↔ ¬ LayoutRefused w addr T calls := by
  unfold ConnectCleans
  rcases connect_cases kernel w addr T calls with
    ⟨hnot, ⟨after, error, hconnect, hrestored⟩ | ⟨_, after, reader, _, _, hconnect, _⟩⟩ |
    ⟨hrefused, id, size, error, hconnect⟩
  · rw [hconnect]
    exact iff_of_true (fun _ _ => hrestored.leavesNothing) hnot
  · rw [hconnect]
    exact iff_of_true (fun _ h => by cases h) hnot
  · rw [hconnect]
    refine iff_of_false ?_ fun h => h hrefused
    exact fun h => not_restored_of_mapped (h _ rfl).toRestored

/-- A failed open leaves nothing behind unless a new segment cannot be given its size,
or the capacity and the readers of a recognised segment have no layout. -/
theorem failed_open_leaves_nothing_iff (kernel : Kernel) (w : World) (addr : Address)
    (T : ElementLayout) (capacity maxReaders : UInt64) (calls : Calls) :
    (CreateCleans kernel w addr T capacity maxReaders calls ↔
      ¬ TruncateRefused w addr T capacity maxReaders calls) ∧
    (ConnectCleans kernel w addr T calls ↔ ¬ LayoutRefused w addr T calls) :=
  ⟨createCleans_iff, connectCleans_iff⟩

end LeavesNothing

section Leaks

theorem lookup_above {V : Type} (m : Map Nat V) : m.lookup (m.keys.sum + 1) = none := by
  cases hlookup : m.lookup (m.keys.sum + 1) with
  | none => rfl
  | some v =>
    have hsum : m.keys.sum = (m.keys.sum + 1) + (m.erase (m.keys.sum + 1)).keys.sum :=
      ((entries_perm_cons_erase hlookup).map Sigma.fst).sum_eq
    omega

theorem le_total_of_lookup {K V : Type} [DecidableEq K] {m : Map K V} {k : K} {v : V}
    (h : m.lookup k = some v) (w : V → Nat) : w v ≤ total w m := by
  rw [total_erase_of_some w h]
  omega

/-- One more than all numbers in use. -/
def Kernel.counting : Kernel where
  newDescriptor w := w.descriptors.keys.sum + 1
  newMapping w := w.mappings.keys.sum + 1
  newObject w := total (fun id => id) w.names + total (fun id => id) w.descriptors +
    total Mapping.object w.mappings + 1
  newDescriptor_free w := lookup_above w.descriptors
  newMapping_free w := lookup_above w.mappings
  newObject_free w := by
    rintro (⟨name, hname⟩ | ⟨fd, hfd⟩ | ⟨map, mapping, hmap, hobject⟩)
    · have hle := le_total_of_lookup hname fun id => id
      omega
    · have hle := le_total_of_lookup hfd fun id => id
      omega
    · have hle := le_total_of_lookup hmap Mapping.object
      omega

def answered : Calls := ⟨none, none, none, none, none, none⟩

def queue : Address := ⟨"queue", "/nnxt/queue", ⟨"/dev/shm/nnxt/queue"⟩⟩

example : QueueAddress.Address.new "queue" = .ok queue := by decide

def noWorld : World := ⟨∅, ∅, ∅, fun _ => .empty⟩

/-- A segment whose header says that it holds no elements. -/
def emptied : World :=
  { noWorld with
    names := noWorld.names.insert (.shm queue.shmName) 1
    objects := fun _ => { Object.empty with header := .new 0 8 4, size := 4096 } }

theorem layoutFor_huge :
    layoutFor word 0x1000000000000000 8 = .ok ⟨64, 128, 0x8000000000000080⟩ := by
  decide

/-- `ftruncate` takes a length of 2^63 and more bytes for a negative one. -/
def truncateRefused : Calls := { answered with ftruncate := some .einval }

theorem create_huge :
    createWithReaders .counting noWorld queue word 0x1000000000000000 8 truncateRefused =
      (closeFd (noWorld.created .counting (.shm queue.shmName)) (Kernel.counting.newDescriptor noWorld),
        .error (.truncateFailed .einval)) := by
  unfold createWithReaders
  rw [layoutFor_huge]
  rfl

/-- A create with 2^60 words is refused by `ftruncate`, and then a create with one word
is refused as well; a connect to a segment of capacity 0 keeps what it has opened. -/
theorem failed_opens_leak :
    ¬ CreateCleans .counting noWorld queue word 0x1000000000000000 8 truncateRefused ∧
    (createWithReaders .counting (createWithReaders .counting noWorld queue word 0x1000000000000000 8
      truncateRefused).1 queue word 1 8 answered).2 = .error .addressInUse ∧
    (createWithReaders .counting noWorld queue word 1 8 answered).2 ≠ .error .addressInUse ∧
    ¬ ConnectCleans .counting emptied queue word answered := by
  have hword : layoutFor word 1 8 = .ok ⟨64, 128, 136⟩ := by decide
  refine ⟨?_, ?_, ?_, ?_⟩
  · rw [createCleans_iff, Classical.not_not]
    exact ⟨⟨_, layoutFor_huge⟩, .inl ⟨rfl, rfl⟩, .einval, rfl⟩
  · rw [addressInUse_iff, create_huge]
    refine ⟨⟨_, hword⟩, not_creates_of_taken rfl ?_⟩
    intro hnone
    have hname := hnone.symm.trans lookup_created_name
    cases hname
  · rw [Ne, addressInUse_iff]
    exact fun h => h.2 (.inl ⟨rfl, rfl⟩)
  · rw [connectCleans_iff, Classical.not_not]
    exact ⟨1, .inl ⟨rfl, AList.lookup_insert _⟩, rfl, rfl, ⟨rfl, rfl, rfl⟩, .capacityTooSmall,
      if_pos rfl⟩

end Leaks

end Nnxt.SegmentCalls
