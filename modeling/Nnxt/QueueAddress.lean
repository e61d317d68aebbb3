import Mathlib.Data.List.Basic
import Mathlib.Data.String.Basic

/-!
# Queue addresses

`Address::new` splits a path at its slashes, checks every segment and joins them
again. What it accepts is a plain grammar, and the names it derives for a queue
tell the accepted paths apart.
-/

namespace Nnxt.QueueAddress

set_option autoImplicit false

def shmRoot : String := "/dev/shm/nnxt"

def shmPrefix : String := "/nnxt"

inductive AddressError where
  | empty
  | emptySegment
  | invalidChar (ch : Char)
  | invalidSegment (segment : String)
  deriving DecidableEq, Repr

structure PathBuf where
  text : String
  deriving DecidableEq, Repr

structure Address where
  path : String
  shmName : String
  filePath : PathBuf
  deriving DecidableEq, Repr

/-- `path.split('/')` -/
def splitSlash (path : String) : List String := (path.toList.splitOn '/').map String.ofList

def startsWithSlash (path : String) : Bool := path.toList.head? = some '/'

/-- `Path::join`: an absolute path replaces the base. -/
def PathBuf.join (base : PathBuf) (path : String) : PathBuf :=
  if startsWithSlash path then ⟨path⟩
  else if base.text.toList.getLast?.all (· = '/') then ⟨base.text ++ path⟩
  else ⟨base.text ++ "/" ++ path⟩

/-- The components of an absolute path, by which paths are compared: repeated and
trailing separators and dots are left out. -/
def PathBuf.components (p : PathBuf) : List String :=
  (splitSlash p.text).filter fun component => component ≠ "" && component ≠ "."

def isNameChar (ch : Char) : Bool := ch.isAlphanum || ch = '-' || ch = '_'

def checkChars : List Char → Except AddressError Unit
  | [] => .ok ()
  | ch :: chars => if isNameChar ch then checkChars chars else .error (.invalidChar ch)

/-- The body of the loop over the segments. -/
def checkSegment (seg : String) : Except AddressError Unit :=
  if seg = "" then .error .emptySegment
  else if seg = "." ∨ seg = ".." then .error (.invalidSegment seg)
  else checkChars seg.toList

def pushSegments (segments : List String) : List String → Except AddressError (List String)
  | [] => .ok segments
  | seg :: rest =>
    match checkSegment seg with
    | .error error => .error error
    | .ok _ => pushSegments (segments ++ [seg]) rest

def Address.new (path : String) : Except AddressError Address :=
  if path = "" then .error .empty
  else if startsWithSlash path then .error (.invalidChar '/')
  else
    match pushSegments [] (splitSlash path) with
    | .error error => .error error
    | .ok segments =>
      let normalized := "/".intercalate segments
      .ok ⟨normalized, shmPrefix ++ "/" ++ normalized, PathBuf.join ⟨shmRoot⟩ normalized⟩

/-- An ASCII letter, a digit, `-` or `_`. -/
def NameChar (ch : Char) : Prop :=
  ('a' ≤ ch ∧ ch ≤ 'z') ∨ ('A' ≤ ch ∧ ch ≤ 'Z') ∨ ('0' ≤ ch ∧ ch ≤ '9') ∨ ch = '-' ∨ ch = '_'

def NameSegment (seg : String) : Prop := seg ≠ "" ∧ ∀ ch ∈ seg.toList, NameChar ch

/-- Segments with single slashes between them, at least one of them. -/
def Grammatical (path : String) : Prop :=
  ∃ segments : List String, segments ≠ [] ∧ (∀ seg ∈ segments, NameSegment seg) ∧
    path = "/".intercalate segments

/-- The path leads to something inside the directory, without going up. -/
def PathBuf.StrictlyBelow (p dir : PathBuf) : Prop :=
  ∃ rest, rest ≠ [] ∧ p.components = dir.components ++ rest ∧ ".." ∉ rest

section Splitting

theorem splitSlash_ne_nil (path : String) : splitSlash path ≠ [] := by
  rw [splitSlash, Ne, List.map_eq_nil_iff]
  exact List.splitOn_ne_nil '/' path.toList

/-- Joining the pieces again gives the path. -/
theorem intercalate_splitSlash (path : String) : "/".intercalate (splitSlash path) = path := by
  apply String.toList_inj.mp
  have hpieces : (splitSlash path).map String.toList = path.toList.splitOn '/' := by
    simp [splitSlash, Function.comp_def]
  rw [String.toList_intercalate, hpieces]
  exact List.intercalate_splitOn '/'

theorem splitSlash_intercalate {segments : List String} (hne : segments ≠ [])
    (hslash : ∀ seg ∈ segments, '/' ∉ seg.toList) :
    splitSlash ("/".intercalate segments) = segments := by
  have hlists : ∀ piece ∈ segments.map String.toList, '/' ∉ piece := by
    intro piece hpiece
    obtain ⟨seg, hseg, rfl⟩ := List.mem_map.mp hpiece
    exact hslash seg hseg
  have hsplit := List.splitOn_intercalate '/' hlists (by simpa using hne)
  rw [splitSlash, String.toList_intercalate]
  have hsep : "/".toList = ['/'] := rfl
  rw [hsep, hsplit, List.map_map]
  simp [Function.comp_def]

theorem splitSlash_append (base path : String) :
    splitSlash (base ++ "/" ++ path) = splitSlash base ++ splitSlash path := by
  have hlist : (base ++ "/" ++ path).toList = base.toList ++ '/' :: path.toList := by
    simp [String.toList_append]
  rw [splitSlash, hlist, List.splitOn_append_cons_self, List.map_append]
  rfl

end Splitting

section Checks

theorem isNameChar_iff (ch : Char) : isNameChar ch = true ↔ NameChar ch := by
  have hupper : ch.isUpper = true ↔ 'A' ≤ ch ∧ ch ≤ 'Z' := by
    have hranges : ch.isUpper = decide (ch.val ≥ 'A'.val ∧ ch.val ≤ 'Z'.val) := rfl
    rw [hranges, decide_eq_true_eq, Char.le_def, Char.le_def]
  have hlower : ch.isLower = true ↔ 'a' ≤ ch ∧ ch ≤ 'z' := by
    have hranges : ch.isLower = (decide (ch.val ≥ 'a'.val) && decide (ch.val ≤ 'z'.val)) := rfl
    rw [hranges, Bool.and_eq_true, decide_eq_true_eq, decide_eq_true_eq, Char.le_def, Char.le_def]
  have hdigit : ch.isDigit = true ↔ '0' ≤ ch ∧ ch ≤ '9' := by
    have hranges : ch.isDigit = (decide (ch.val ≥ '0'.val) && decide (ch.val ≤ '9'.val)) := rfl
    rw [hranges, Bool.and_eq_true, decide_eq_true_eq, decide_eq_true_eq, Char.le_def, Char.le_def]
  have halnum : ch.isAlphanum = (ch.isUpper || ch.isLower || ch.isDigit) := rfl
  simp only [isNameChar, halnum, Bool.or_eq_true, hupper, hlower, hdigit, decide_eq_true_eq, NameChar,
    or_assoc]
  exact or_left_comm

theorem not_nameChar_slash : ¬ NameChar '/' := by
  rw [← isNameChar_iff]
  decide

theorem not_nameChar_dot : ¬ NameChar '.' := by
  rw [← isNameChar_iff]
  decide

theorem checkChars_eq_ok_iff (chars : List Char) :
    checkChars chars = .ok () ↔ ∀ ch ∈ chars, NameChar ch := by
  induction chars with
  | nil => simp [checkChars]
  | cons ch chars ih =>
    rw [checkChars, List.forall_mem_cons, ← isNameChar_iff]
    by_cases hch : isNameChar ch = true
    · rw [if_pos hch, ih, and_iff_right hch]
    · rw [if_neg hch]
      exact iff_of_false (fun h => by cases h) fun h => hch h.1

/-- The dot segments need no check of their own: a dot is no name character. -/
theorem checkSegment_eq_ok_iff (seg : String) : checkSegment seg = .ok () ↔ NameSegment seg := by
  unfold checkSegment NameSegment
  by_cases hempty : seg = ""
  · rw [if_pos hempty]
    exact iff_of_false (fun h => by cases h) fun h => h.1 hempty
  · rw [if_neg hempty, and_iff_right hempty]
    by_cases hdots : seg = "." ∨ seg = ".."
    · rw [if_pos hdots]
      refine iff_of_false (fun h => by cases h) fun h => ?_
      have hdot : '.' ∈ seg.toList := by
        rcases hdots with rfl | rfl
        · exact List.mem_cons_self
        · exact List.mem_cons_self
      exact not_nameChar_dot (h '.' hdot)
    · rw [if_neg hdots]
      exact checkChars_eq_ok_iff seg.toList

theorem pushSegments_eq_ok_iff (before rest segments : List String) :
    pushSegments before rest = .ok segments ↔
      (∀ seg ∈ rest, NameSegment seg) ∧ segments = before ++ rest := by
  induction rest generalizing before with
  | nil => simp [pushSegments, eq_comm]
  | cons seg rest ih =>
    rw [pushSegments, List.forall_mem_cons, ← checkSegment_eq_ok_iff]
    cases checkSegment seg with
    | error error => simp
    | ok _ => simp [ih]

end Checks

section Names
variable {path : String} {addr : Address}

theorem NameSegment.slash_notMem {seg : String} (h : NameSegment seg) : '/' ∉ seg.toList :=
  fun hmem => not_nameChar_slash (h.2 '/' hmem)

theorem grammatical_iff_split :
    Grammatical path ↔ ∀ seg ∈ splitSlash path, NameSegment seg := by
  constructor
  · rintro ⟨segments, hne, hsegments, rfl⟩
    rw [splitSlash_intercalate hne fun seg hseg => (hsegments seg hseg).slash_notMem]
    exact hsegments
  · intro h
    exact ⟨splitSlash path, splitSlash_ne_nil path, h, (intercalate_splitSlash path).symm⟩

theorem Grammatical.ne_empty (h : Grammatical path) : path ≠ "" := by
  rintro rfl
  have hempty := grammatical_iff_split.mp h "" (by decide)
  exact hempty.1 rfl

/-- A leading slash makes the first segment empty. -/
theorem Grammatical.startsWithSlash_eq (h : Grammatical path) : startsWithSlash path = false := by
  rw [Bool.eq_false_iff]
  intro hstarts
  have hhead := of_decide_eq_true hstarts
  obtain ⟨tail, htail⟩ := List.head?_eq_some_iff.mp hhead
  have hmem : "" ∈ splitSlash path := by
    rw [splitSlash, htail, List.splitOn_cons_eq_if_modifyHead]
    simp
  exact (grammatical_iff_split.mp h "" hmem).1 rfl

/-- The names derived from an accepted path. -/
theorem new_eq_ok_iff :
    Address.new path = .ok addr ↔
      Grammatical path ∧ addr = ⟨path, shmPrefix ++ "/" ++ path, ⟨shmRoot ++ "/" ++ path⟩⟩ := by
  unfold Address.new
  by_cases hpath : Grammatical path
  · have hsplit := (pushSegments_eq_ok_iff [] (splitSlash path) (splitSlash path)).mpr
      ⟨grammatical_iff_split.mp hpath, rfl⟩
    have hjoin : PathBuf.join ⟨shmRoot⟩ path = ⟨shmRoot ++ "/" ++ path⟩ := by
      rw [PathBuf.join, hpath.startsWithSlash_eq]
      rfl
    rw [if_neg hpath.ne_empty, hpath.startsWithSlash_eq, if_neg Bool.false_ne_true, hsplit,
      and_iff_right hpath]
    simp only [intercalate_splitSlash, hjoin, Except.ok.injEq]
    exact eq_comm
  · rw [iff_false_right (fun h => hpath h.1)]
    split
    · exact fun h => by cases h
    · split
      · exact fun h => by cases h
      · cases hsegments : pushSegments [] (splitSlash path) with
        | error error => exact fun h => by cases h
        | ok segments =>
          have hchecked := (pushSegments_eq_ok_iff _ _ _).mp hsegments
          exact absurd (grammatical_iff_split.mpr hchecked.1) hpath

theorem components_filePath (h : Grammatical path) :
    PathBuf.components ⟨shmRoot ++ "/" ++ path⟩ =
      PathBuf.components ⟨shmRoot⟩ ++ splitSlash path := by
  have hkeep : (splitSlash path).filter (fun component => component ≠ "" && component ≠ ".") =
      splitSlash path := by
    apply List.filter_eq_self.mpr
    intro seg hseg
    have hname := grammatical_iff_split.mp h seg hseg
    have hdot : seg ≠ "." := by
      rintro rfl
      exact not_nameChar_dot (hname.2 '.' List.mem_cons_self)
    simp [hname.1, hdot]
  rw [PathBuf.components, splitSlash_append, List.filter_append, hkeep]
  rfl

theorem strictlyBelow_filePath (h : Grammatical path) :
    PathBuf.StrictlyBelow ⟨shmRoot ++ "/" ++ path⟩ ⟨shmRoot⟩ := by
  refine ⟨splitSlash path, splitSlash_ne_nil path, components_filePath h, ?_⟩
  intro hmem
  exact not_nameChar_dot ((grammatical_iff_split.mp h ".." hmem).2 '.' List.mem_cons_self)

theorem splitSlash_inj {path' : String} (h : splitSlash path = splitSlash path') : path = path' := by
  rw [← intercalate_splitSlash path, h, intercalate_splitSlash]

end Names

/-- What `Address::new` accepts, what it keeps of its input, and that the names
of two accepted inputs differ, the file paths also as paths. -/
theorem accepts_exactly_grammar :
    (∀ path, (∃ addr, Address.new path = .ok addr) ↔ Grammatical path) ∧
    (∀ path addr, Address.new path = .ok addr →
      addr.path = path ∧ addr.filePath.StrictlyBelow ⟨shmRoot⟩) ∧
    ∀ path path' addr addr', Address.new path = .ok addr → Address.new path' = .ok addr' →
      path ≠ path' →
      addr.shmName ≠ addr'.shmName ∧ addr.filePath.components ≠ addr'.filePath.components := by
  refine ⟨?_, ?_, ?_⟩
  · intro path
    constructor
    · rintro ⟨addr, haddr⟩
      exact (new_eq_ok_iff.mp haddr).1
    · intro h
      exact ⟨_, new_eq_ok_iff.mpr ⟨h, rfl⟩⟩
  · intro path addr haddr
    obtain ⟨hpath, rfl⟩ := new_eq_ok_iff.mp haddr
    exact ⟨rfl, strictlyBelow_filePath hpath⟩
  · intro path path' addr addr' haddr haddr' hne
    obtain ⟨hpath, rfl⟩ := new_eq_ok_iff.mp haddr
    obtain ⟨hpath', rfl⟩ := new_eq_ok_iff.mp haddr'
    constructor
    · intro hshm
      apply hne
      exact String.append_right_inj _ |>.mp hshm
    · intro hfile
      rw [components_filePath hpath, components_filePath hpath'] at hfile
      exact hne (splitSlash_inj (List.append_cancel_left hfile))

end Nnxt.QueueAddress
