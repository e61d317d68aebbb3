import Nnxt.MemoryLayout
import Nnxt.QueueAddress
import Nnxt.SegmentNames

/-!
# Opening a queue, one system call at a time

`create_with_readers` and `connect` over everything they acquire: names,
descriptors, mappings and reader slots. What a system call answers is arbitrary
beyond what the names decide. Directories made on the way name no queue and are
left out.
-/

namespace Nnxt.SegmentCalls

set_option autoImplicit false

open HashMap MemoryLayout
open QueueAddress (Address PathBuf)
open SegmentNames (Errno)

inductive Error where
  | addressInUse
  | notFound
  | invalidHeader
  | sizeMismatch (expected actual : UInt64)
  | capacityTooSmall
  | readerSlotsFull
  | shmOpenFailed (errno : Errno)
  | shmUnlinkFailed (errno : Errno)
  | fileOpenFailed (errno : Errno)
  | fileUnlinkFailed (errno : Errno)
  | fileStatFailed (errno : Errno)
  | mmapFailed (errno : Errno)
  | truncateFailed (errno : Errno)
  deriving DecidableEq, Repr

def Error.ofRing : RingError → Error
  | .capacityTooSmall => .capacityTooSmall
  | .readerSlotsFull => .readerSlotsFull

/-- `EBADF` -/
def ebadf : Errno := .other 9

/-- The name of a shared memory object, or the path of a file. -/
inductive Name where
  | shm (name : String)
  | file (path : PathBuf)
  deriving DecidableEq, Repr

/-- The memory behind a name, a descriptor or a mapping. -/
structure Object where
  header : Header
  slots : Nat → UInt64
  size : UInt64

def Object.empty : Object := ⟨⟨0, 0, 0, 0, 0, 0⟩, fun _ => 0, 0⟩

structure Mapping where
  object : Nat
  length : UInt64
  deriving DecidableEq, Repr

/-- Names, descriptors and mappings lead to objects; the contents of an object that
nothing leads to mean nothing. -/
structure World where
  names : Map Name Nat
  descriptors : Map Nat Nat
  mappings : Map Nat Mapping
  objects : Nat → Object

namespace World

def Live (w : World) (id : Nat) : Prop :=
  (∃ name, w.names.lookup name = some id) ∨ (∃ fd, w.descriptors.lookup fd = some id) ∨
    ∃ map mapping, w.mappings.lookup map = some mapping ∧ mapping.object = id

def setObject (w : World) (id : Nat) (object : Object) : World :=
  { w with objects := Function.update w.objects id object }

def mapped (w : World) (map : Nat) : Object :=
  match w.mappings.lookup map with
  | some mapping => w.objects mapping.object
  | none => .empty

end World

/-- The numbers the system gives out are not in use. -/
structure Kernel where
  newDescriptor : World → Nat
  newMapping : World → Nat
  newObject : World → Nat
  newDescriptor_free : ∀ w : World, w.descriptors.lookup (newDescriptor w) = none
  newMapping_free : ∀ w : World, w.mappings.lookup (newMapping w) = none
  newObject_free : ∀ w : World, ¬ w.Live (newObject w)

/-- What each system call answers: the error it gives, or none. -/
structure Calls where
  shmOpen : Option Errno
  createDirs : Option Errno
  fileOpen : Option Errno
  ftruncate : Option Errno
  fstat : Option Errno
  mmap : Option Errno
  deriving DecidableEq, Repr

structure OpenedShm where
  fd : Nat
  usedShmOpen : Bool
  deriving DecidableEq, Repr

structure Writer where
  addr : Address
  fd : Nat
  map : Nat
  mapLen : UInt64
  capacity : UInt64
  usedShmOpen : Bool
  pendingSeq : UInt64
  hasPending : Bool

structure Reader where
  addr : Address
  fd : Nat
  map : Nat
  mapLen : UInt64
  readSlot : Nat
  usedShmOpen : Bool

/-- The name that `used_shm_open` stands for. -/
def openedName (addr : Address) (usedShmOpen : Bool) : Name :=
  if usedShmOpen then .shm addr.shmName else .file addr.filePath

section SystemCalls
variable (kernel : Kernel) (w : World)

/-- The state after a new object was opened under a new name. -/
def World.created (name : Name) : World :=
  { w with
    names := w.names.insert name (kernel.newObject w)
    descriptors := w.descriptors.insert (kernel.newDescriptor w) (kernel.newObject w)
    objects := Function.update w.objects (kernel.newObject w) .empty }

/-- The state after an object was opened. -/
def World.opened (id : Nat) : World :=
  { w with descriptors := w.descriptors.insert (kernel.newDescriptor w) id }

/-- `O_CREAT | O_EXCL` -/
def openExclusive (name : Name) (refused : Option Errno) : World × Except Errno Nat :=
  match refused, w.names.lookup name with
  | some errno, _ => (w, .error errno)
  | none, some _ => (w, .error .eexist)
  | none, none => (w.created kernel name, .ok (kernel.newDescriptor w))

def openExisting (name : Name) (refused : Option Errno) : World × Except Errno Nat :=
  match refused, w.names.lookup name with
  | some errno, _ => (w, .error errno)
  | none, none => (w, .error .enoent)
  | none, some id => (w.opened kernel id, .ok (kernel.newDescriptor w))

def openCreateShm (addr : Address) (calls : Calls) : World × Except Error OpenedShm :=
  match openExclusive kernel w (.shm addr.shmName) calls.shmOpen with
  | (w, .ok fd) => (w, .ok ⟨fd, true⟩)
  | (w, .error errno) =>
    if errno ≠ .einval then (w, .error (.shmOpenFailed errno))
    else
      match calls.createDirs with
      | some errno => (w, .error (.fileOpenFailed errno))
      | none =>
        match openExclusive kernel w (.file addr.filePath) calls.fileOpen with
        | (w, .ok fd) => (w, .ok ⟨fd, false⟩)
        | (w, .error errno) => (w, .error (.fileOpenFailed errno))

def openExistingShm (addr : Address) (calls : Calls) : World × Except Error OpenedShm :=
  match openExisting kernel w (.shm addr.shmName) calls.shmOpen with
  | (w, .ok fd) => (w, .ok ⟨fd, true⟩)
  | (w, .error errno) =>
    if errno ≠ .einval ∧ errno ≠ .enoent then (w, .error (.shmOpenFailed errno))
    else
      match openExisting kernel w (.file addr.filePath) calls.fileOpen with
      | (w, .ok fd) => (w, .ok ⟨fd, false⟩)
      | (w, .error _) => (w, .error .notFound)

def shmUnlink (addr : Address) (usedShmOpen : Bool) : World × Except Error Unit :=
  let name := openedName addr usedShmOpen
  match w.names.lookup name with
  | some _ => ({ w with names := w.names.erase name }, .ok ())
  | none => (w, .error (if usedShmOpen then .shmUnlinkFailed .enoent else .fileUnlinkFailed .enoent))

def ftruncate (fd : Nat) (size : UInt64) (refused : Option Errno) : World × Except Errno Unit :=
  match refused, w.descriptors.lookup fd with
  | some errno, _ => (w, .error errno)
  | none, none => (w, .error ebadf)
  | none, some id => (w.setObject id { w.objects id with size := size }, .ok ())

/-- The size the descriptor's object has. -/
def fstat (fd : Nat) (refused : Option Errno) : Except Errno UInt64 :=
  match refused, w.descriptors.lookup fd with
  | some errno, _ => .error errno
  | none, none => .error ebadf
  | none, some id => .ok (w.objects id).size

def mapShared (fd : Nat) (size : UInt64) (refused : Option Errno) : World × Except Error Nat :=
  match refused, w.descriptors.lookup fd with
  | some errno, _ => (w, .error (.mmapFailed errno))
  | none, none => (w, .error (.mmapFailed ebadf))
  | none, some id =>
    ({ w with mappings := w.mappings.insert (kernel.newMapping w) ⟨id, size⟩ },
      .ok (kernel.newMapping w))

def unmapShared (map : Nat) : World := { w with mappings := w.mappings.erase map }

def closeFd (fd : Nat) : World := { w with descriptors := w.descriptors.erase fd }

/-- The writes into a new mapping: the header and a free value in every reader slot. -/
def initialise (map : Nat) (header : Header) : World :=
  match w.mappings.lookup map with
  | none => w
  | some mapping =>
    let object := w.objects mapping.object
    w.setObject mapping.object
      { object with
        header := header
        slots := fun idx => if idx < header.maxReaders.toNat then freeReader else object.slots idx }

/-- Both ways of not opening are reported as the address being taken. -/
def Error.asAddressInUse : Error → Error
  | .shmOpenFailed _ => .addressInUse
  | .fileOpenFailed _ => .addressInUse
  | error => error

def createWithReaders (addr : Address) (T : ElementLayout) (capacity maxReaders : UInt64)
    (calls : Calls) : World × Except Error Writer :=
  match layoutFor T capacity maxReaders with
  | .error error => (w, .error (.ofRing error))
  | .ok layout =>
    match openCreateShm kernel w addr calls with
    | (w, .error error) => (w, .error error.asAddressInUse)
    | (w, .ok opened) =>
      match ftruncate w opened.fd layout.totalSize calls.ftruncate with
      -- the name is not unlinked here
      | (w, .error errno) => (closeFd w opened.fd, .error (.truncateFailed errno))
      | (w, .ok ()) =>
        match mapShared kernel w opened.fd layout.totalSize calls.mmap with
        | (w, .error error) =>
          (closeFd (shmUnlink w addr opened.usedShmOpen).1 opened.fd, .error error)
        | (w, .ok map) =>
          (initialise w map (.new capacity T.size maxReaders),
            .ok ⟨addr, opened.fd, map, layout.totalSize, capacity, opened.usedShmOpen, 0, false⟩)

/-- The first free slot from `idx` on, among `remaining` slots. -/
def scan (slots : Nat → UInt64) : (remaining idx : Nat) → Option Nat
  | 0, _ => none
  | remaining + 1, idx =>
    if slots idx = freeReader then some idx else scan slots remaining (idx + 1)

/-- The compare-exchange that succeeded. -/
def claimSlot (map slot : Nat) (writeSeq : UInt64) : World :=
  match w.mappings.lookup map with
  | none => w
  | some mapping =>
    let object := w.objects mapping.object
    w.setObject mapping.object { object with slots := Function.update object.slots slot writeSeq }

def connect (addr : Address) (T : ElementLayout) (calls : Calls) : World × Except Error Reader :=
  match openExistingShm kernel w addr calls with
  | (w, .error error) => (w, .error error)
  | (w, .ok opened) =>
    match fstat w opened.fd calls.fstat with
    | .error errno => (closeFd w opened.fd, .error (.fileStatFailed errno))
    | .ok mapLen =>
      match mapShared kernel w opened.fd mapLen calls.mmap with
      | (w, .error error) => (closeFd w opened.fd, .error error)
      | (w, .ok map) =>
        let object := w.mapped map
        let header := object.header
        if header.magic ≠ magic ∨ header.version ≠ version then
          (closeFd (unmapShared w map) opened.fd, .error .invalidHeader)
        else if header.elementSize ≠ T.size then
          (closeFd (unmapShared w map) opened.fd, .error (.sizeMismatch T.size header.elementSize))
        else
          match layoutFor T header.capacity header.maxReaders with
          -- neither the mapping nor the descriptor is given back here
          | .error error => (w, .error (.ofRing error))
          | .ok layout =>
            if mapLen < layout.totalSize then
              (closeFd (unmapShared w map) opened.fd, .error (.sizeMismatch layout.totalSize mapLen))
            else
              match scan object.slots header.maxReaders.toNat 0 with
              | none => (closeFd (unmapShared w map) opened.fd, .error .readerSlotsFull)
              | some slot =>
                (claimSlot w map slot header.writeSeq,
                  .ok ⟨addr, opened.fd, map, mapLen, slot, opened.usedShmOpen⟩)

end SystemCalls

end Nnxt.SegmentCalls
