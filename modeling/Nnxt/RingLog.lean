import Nnxt.RingRuns

/-!
# The ring as a log read through cursors

With reader steps only between complete operations of the writer, the ring
behaves as an append-only log with one cursor for each reader, as long as the
64-bit sequence numbers have not wrapped.
-/

namespace Nnxt.RingLog

set_option autoImplicit false

open RingSystem CursorLog

variable {T : Type}

/-- Reader steps fall between complete operations of the writer. -/
def BetweenWrites (s : RingSystem T) : RingStep T → Prop
  | .prepare | .fill _ | .commit | .write _ => True
  | _ => s.writer.hasPending = false

def toLog (s : RingSystem T) : Log Nat T where
  entries := s.log
  cursor := s.cursor
  deliveries := s.handed.map fun d => ⟨d.reader, d.seq.toNat, d.value⟩

def logOps (s : RingSystem T) : RingStep T → List (Op Nat T)
  | .prepare | .fill _ => []
  | .commit => if s.writer.hasPending then [.append (s.ring.load s.writer.pendingSeq)] else []
  | .write value => [.append value]
  | .connect reader =>
    match s.readers reader, s.ring.connect with
    | none, .ok _ => [.attach reader]
    | _, _ => []
  | .tryRead reader => [.read reader]
  | .read _ 0 | .readTimeout _ _ [] => []
  | .read reader _ | .readTimeout reader _ _ => [.read reader]
  | .drop reader => [.detach reader]

def logTrace (s : RingSystem T) : List (RingStep T) → List (Op Nat T)
  | [] => []
  | i :: is => logOps s i ++ logTrace (s.step i) is

/-- What a reader standing in `slot` gets, whichever of the three reads it uses. -/
structure Serves (s : RingSystem T) (slot : Nat) : Prop where
  cursor_le : (s.ring.readSeq slot).toNat ≤ s.log.length
  caughtUp : (s.ring.readSeq slot).toNat = s.log.length →
    s.ring.tryRead slot = (s.ring, none) ∧
    (∀ passes, s.ring.read slot passes = none) ∧
    ∀ timeout elapsed, s.ring.readTimeout slot timeout elapsed =
      if ∃ e ∈ elapsed, timeout ≤ e then some (s.ring, none) else none
  behind : s.writer.hasPending = false → (s.ring.readSeq slot).toNat < s.log.length →
    ∃ (ring : Ring T) (seq : UInt64) (value : T),
      seq.toNat = nextPosition s.ring.capacity.toNat s.log.length (s.ring.readSeq slot).toNat ∧
      (seq.toNat ≠ (s.ring.readSeq slot).toNat →
        s.ring.capacity.toNat < s.log.length - (s.ring.readSeq slot).toNat) ∧
      s.log[seq.toNat]? = some value ∧ ring.load seq = value ∧
      (ring.readSeq slot).toNat = seq.toNat + 1 ∧
      s.ring.tryRead slot = (ring, some seq) ∧
      (∀ passes, s.ring.read slot (passes + 1) = some (ring, seq)) ∧
      ∀ timeout elapsed later,
        s.ring.readTimeout slot timeout (elapsed :: later) = some (ring, some seq)

def ServesAll (s : RingSystem T) : Prop :=
  ∀ reader slot, s.readers reader = some slot → Serves s slot

structure Refines (s₀ : RingSystem T) (is : List (RingStep T)) : Prop where
  serves : Transition.Always RingSystem.step ServesAll s₀ is
  simulates : ∀ js, js <+: is →
    toLog (Transition.run RingSystem.step s₀ js) =
      Transition.run (CursorLog.step s₀.ring.capacity.toNat) (toLog s₀) (logTrace s₀ js)
  sound : Transition.Always RingSystem.step (fun s => Sound (toLog s)) s₀ is
  fromConnection : ∀ js ks, js ++ ks <+: is → ∀ reader c,
    (Transition.run RingSystem.step s₀ js).cursor reader = some c →
    From reader c (Transition.run RingSystem.step s₀ js).handed.length
      (toLog (Transition.run RingSystem.step s₀ (js ++ ks)))
  isolated : ∀ js, js <+: is → ∀ reader,
    SameView reader (toLog (Transition.run RingSystem.step s₀ js))
      (Transition.run (CursorLog.step s₀.ring.capacity.toNat) (toLog s₀)
        ((logTrace s₀ js).filter (·.concerns reader)))
  idleCommit : Transition.Always RingSystem.step
    (fun s => s.writer.hasPending = false → s.step .commit = s) s₀ is
  idlePrepare : Transition.Always RingSystem.step
    (fun s => s.writer.hasPending = true → s.step .prepare = s) s₀ is

section Steps
variable {s : RingSystem T} {reader slot : Nat}

theorem nextPosition_served (h : s.Inv) (hr : s.readers reader = some slot) :
    (s.ring.served slot).toNat =
      nextPosition s.ring.capacity.toNat s.log.length (s.ring.readSeq slot).toNat := by
  have hle := h.cursors.cursor_le reader slot hr
  rw [← h.stored.writeSeq] at hle ⊢
  exact Ring.toNat_served hle

/-- Between writer operations a reader is served what was committed. -/
theorem load_served (h : s.Inv) (hp : s.writer.hasPending = false)
    (hr : s.readers reader = some slot) (hbehind : s.ring.readSeq slot < s.ring.writeSeq) :
    s.log[(s.ring.served slot).toNat]? = some (s.ring.load (s.ring.served slot)) := by
  apply h.stored.content _ (h.served_lt hr hbehind)
  apply h.stored.not_refilled hp
  rw [nextPosition_served h hr]
  unfold nextPosition
  omega

theorem serves_of_inv (h : s.Inv) (hr : s.readers reader = some slot) : Serves s slot where
  cursor_le := h.cursors.cursor_le reader slot hr
  caughtUp := by
    intro heq
    rw [← h.stored.writeSeq] at heq
    have hc := UInt64.toNat_inj.mp heq
    exact ⟨Ring.tryRead_caughtUp hc, Ring.read_caughtUp hc, Ring.readTimeout_caughtUp hc⟩
  behind := by
    intro hp hlt
    rw [← h.stored.writeSeq] at hlt
    have hb := UInt64.lt_iff_toNat_lt.mpr hlt
    have hserved := nextPosition_served h hr
    refine ⟨s.ring.storeReader slot (s.ring.served slot + 1), _, _, hserved, ?_,
      load_served h hp hr hb, rfl, ?_, Ring.tryRead_behind hb, Ring.read_behind hb,
      Ring.readTimeout_behind hb⟩
    · intro hskips
      rw [hserved] at hskips
      exact lagging_of_skips hskips
    · rw [s.ring.readSeq_storeReader_self (h.cursors.slot_lt reader slot hr),
        h.toNat_served_succ hr hb]

theorem toLog_commit : toLog s.commit =
    Transition.run (CursorLog.step s.ring.capacity.toNat) (toLog s) (logOps s .commit) := by
  by_cases hp : s.writer.hasPending = true
  · rw [commit_of_pending hp]
    simp only [logOps, if_pos hp]
    rfl
  · rw [commit_of_not_pending hp]
    simp only [logOps, if_neg hp]
    rfl

theorem toLog_fill (value : T) : toLog (s.fill value) = toLog s := by
  by_cases hp : s.writer.hasPending = true
  · rw [fill_of_pending hp]
    rfl
  · rw [fill_of_not_pending hp]

theorem toLog_connect (h : s.Inv) (reader : Nat) : toLog (s.connect reader) =
    Transition.run (CursorLog.step s.ring.capacity.toNat) (toLog s) (logOps s (.connect reader)) := by
  cases hr : s.readers reader with
  | some slot =>
    simp only [connect, logOps, hr]
    rfl
  | none =>
    cases hc : s.ring.connect with
    | error e =>
      simp only [connect, logOps, hr, hc]
      rfl
    | ok taken =>
      obtain ⟨ring, slot⟩ := taken
      obtain ⟨hlt, hfree, rfl⟩ := s.ring.connect_ok hc
      have hdetached : (toLog s).cursor reader = none := cursor_of_none hr
      simp only [connect, logOps, hr, hc, Transition.run_cons, Transition.run_nil,
        CursorLog.step, if_pos hdetached]
      simp only [toLog, h.cursor_attach reader hlt hfree]
      rfl

theorem toLog_drop (h : s.Inv) (reader : Nat) : toLog (s.step (.drop reader)) =
    CursorLog.step s.ring.capacity.toNat (toLog s) (.detach reader) := by
  cases hr : s.readers reader with
  | none =>
    have hdetached : Function.update s.cursor reader none = s.cursor := by
      rw [← cursor_of_none hr, Function.update_eq_self]
    simp only [RingSystem.step, hr, CursorLog.step, Log.moveCursor, toLog, hdetached]
  | some slot =>
    simp only [RingSystem.step, hr, CursorLog.step, Log.moveCursor, toLog, h.cursor_detach hr]
    rfl

theorem toLog_outcome (h : s.Inv) (hp : s.writer.hasPending = false) {s' : RingSystem T}
    (ho : ReadOutcome s reader s') :
    toLog s' = CursorLog.step s.ring.capacity.toNat (toLog s) (.read reader) := by
  cases ho with
  | nothing hs hidle =>
    rcases read_cases s.ring.capacity.toNat (toLog s) reader with
      ⟨heq, _⟩ | ⟨c, value, hc, hv, _⟩
    · rw [heq, hs]
    · -- a caught-up cursor stands at the end of the log
      cases hr : s.readers reader with
      | none =>
        have hnone : s.cursor reader = some c := hc
        rw [cursor_of_none hr] at hnone
        cases hnone
      | some slot =>
        have hend : s.cursor reader = some c := hc
        rw [cursor_of_some hr, hidle slot hr, h.stored.writeSeq] at hend
        cases hend
        have hlt := (List.getElem?_eq_some_iff.mp hv).1
        have hself : nextPosition s.ring.capacity.toNat (toLog s).entries.length s.log.length =
          s.log.length := nextPosition_self
        rw [hself] at hlt
        exact absurd hlt (Nat.lt_irrefl _)
  | entry slot hr hb hs =>
    have hcursor : (toLog s).cursor reader = some (s.ring.readSeq slot).toNat := cursor_of_some hr
    have hvalue := load_served h hp hr hb
    rw [nextPosition_served h hr] at hvalue
    have hentry : (toLog s).entries[nextPosition s.ring.capacity.toNat (toLog s).entries.length
      (s.ring.readSeq slot).toNat]? = some (s.ring.load (s.ring.served slot)) := hvalue
    simp only [CursorLog.step, hcursor, hentry, hs]
    simp only [toLog, Log.serve, Log.moveCursor, h.cursor_advance hr hb, nextPosition_served h hr]
    simp only [advance, received, List.map_append, List.map_singleton, nextPosition_served h hr,
      Ring.storeReader_load]

/-- One step of the ring is the log operations it amounts to. -/
theorem toLog_step (h : s.Inv) {i : RingStep T} (hg : BetweenWrites s i) :
    toLog (s.step i) =
      Transition.run (CursorLog.step s.ring.capacity.toNat) (toLog s) (logOps s i) := by
  cases i with
  | prepare => rfl
  | fill value => exact toLog_fill value
  | commit => exact toLog_commit
  | write value => rfl
  | connect reader => exact toLog_connect h reader
  | tryRead reader => exact toLog_outcome h hg (h.tryRead_outcome reader)
  | read reader passes =>
    cases passes with
    | zero => rw [step_read_zero]; rfl
    | succ passes => exact toLog_outcome h hg (h.read_outcome reader passes)
  | readTimeout reader timeout elapsed =>
    cases elapsed with
    | nil => rw [step_readTimeout_nil]; rfl
    | cons e later => exact toLog_outcome h hg (h.readTimeout_outcome reader timeout e later)
  | drop reader => exact toLog_drop h reader

end Steps

section Runs
variable {s : RingSystem T} {is : List (RingStep T)}

theorem few_before {js : List (RingStep T)} (hjs : js <+: is)
    (hfew : (Transition.run RingSystem.step s is).log.length < 2 ^ 64) :
    (Transition.run RingSystem.step s js).log.length < 2 ^ 64 := by
  obtain ⟨ks, rfl⟩ := hjs
  rw [Transition.run_append] at hfew
  exact Nat.lt_of_le_of_lt (log_prefix_run _ ks).length_le hfew

theorem toLog_run (h : s.Inv) (hg : Transition.Guarded RingSystem.step BetweenWrites s is)
    (hfew : (Transition.run RingSystem.step s is).log.length < 2 ^ 64) :
    toLog (Transition.run RingSystem.step s is) =
      Transition.run (CursorLog.step s.ring.capacity.toNat) (toLog s) (logTrace s is) := by
  induction is generalizing s with
  | nil => rfl
  | cons i is ih =>
    obtain ⟨hi, hg⟩ := Transition.guarded_cons.mp hg
    have hstep := few_before (List.prefix_append [i] is) hfew
    have hcap := h.capacity_step i
    rw [Transition.run_cons, ih (h.step i hstep) hg hfew, toLog_step h hi, logTrace,
      Transition.run_append, hcap]

theorem refines_of_inv (h : s.Inv) (hg : Transition.Guarded RingSystem.step BetweenWrites s is)
    (hempty : Sound (toLog s))
    (hfew : (Transition.run RingSystem.step s is).log.length < 2 ^ 64) : Refines s is where
  serves := (h.run hfew).mono fun _ ht _ _ hr => serves_of_inv ht hr
  simulates := fun js hjs => toLog_run h (hg.of_prefix hjs) (few_before hjs hfew)
  sound := by
    intro js hjs
    rw [toLog_run h (hg.of_prefix hjs) (few_before hjs hfew)]
    exact hempty.run _
  fromConnection := by
    intro js ks hjs reader c hc
    have hpre := (List.prefix_append js ks).trans hjs
    have hmid := (h.run hfew) js hpre
    have hsound : Sound (toLog (Transition.run RingSystem.step s js)) := by
      rw [toLog_run h (hg.of_prefix hpre) (few_before hpre hfew)]
      exact hempty.run _
    have hks := few_before hjs hfew
    rw [Transition.run_append] at hks ⊢
    rw [toLog_run hmid (hg.of_prefix hjs).of_append hks]
    have hfrom := from_run (Transition.run RingSystem.step s js).ring.capacity.toNat hsound hc
      (logTrace (Transition.run RingSystem.step s js) ks)
    simpa only [toLog, List.length_map] using hfrom
  isolated := by
    intro js hjs reader
    rw [toLog_run h (hg.of_prefix hjs) (few_before hjs hfew)]
    exact sameView_run (.refl reader _) _
  idleCommit := by
    intro js _ hp
    exact commit_of_not_pending (by rw [hp]; exact Bool.false_ne_true)
  idlePrepare := by
    intro js hjs hp
    exact ((h.run hfew) js hjs).stored.prepare_pending hp

end Runs

/-- The ring is a log read through cursors along every run of fewer than 2^64
commits in which no reader steps into the middle of a write. -/
theorem ring_refines_log {capacity : UInt64} {maxReaders : Nat} {zero : T} {ring : Ring T}
    {writer : Writer} {is : List (RingStep T)}
    (hcreate : Ring.create capacity maxReaders zero = .ok (ring, writer))
    (hg : Transition.Guarded RingSystem.step BetweenWrites (start ring writer) is)
    (hfew : (Transition.run RingSystem.step (start ring writer) is).log.length < 2 ^ 64) :
    Refines (start ring writer) is :=
  refines_of_inv (inv_start hcreate) hg sound_empty hfew

def twoSlots : Ring UInt64 := ⟨2, 0, [freeReader], Vector.replicate _ 0, by decide⟩

/-- A reader lapped by one entry, and a `prepare` and a `commit` too many. -/
def lapped : List (RingStep UInt64) :=
  [.connect 0, .write 1, .prepare, .prepare, .fill 2, .commit, .commit, .write 3,
   .tryRead 0, .read 0 1, .readTimeout 0 5 [0, 5], .drop 0]

theorem ring_refines_log_lapped :
    Refines (start twoSlots ⟨0, false⟩) lapped ∧
      (toLog (Transition.run RingSystem.step (start twoSlots ⟨0, false⟩) lapped)).deliveries.map
        (fun d => (d.position, d.value)) = [(1, 2), (2, 3)] := by
  have hcreate : Ring.create 2 1 (0 : UInt64) = .ok (twoSlots, ⟨0, false⟩) := rfl
  refine ⟨ring_refines_log hcreate ?_ (by decide), by decide⟩
  simp only [lapped, Transition.guarded_cons, Transition.guarded_nil, and_true]
  exact ⟨rfl, trivial, trivial, trivial, trivial, trivial, trivial, trivial, rfl, rfl, rfl, rfl⟩

section Wrap

theorem run_writes (value : T) (m : Nat) (s : RingSystem T) :
    (Transition.run RingSystem.step s (List.replicate m (.write value))).ring.writeSeq =
        s.ring.writeSeq + UInt64.ofNat m ∧
      (Transition.run RingSystem.step s (List.replicate m (.write value))).log.length =
        s.log.length + m ∧
      (Transition.run RingSystem.step s (List.replicate m (.write value))).ring.readSlots =
        s.ring.readSlots ∧
      (Transition.run RingSystem.step s (List.replicate m (.write value))).readers = s.readers ∧
      (s.writer.hasPending = false →
        (Transition.run RingSystem.step s (List.replicate m (.write value))).writer.hasPending =
          false) := by
  induction m generalizing s with
  | zero => simp
  | succ m ih =>
    obtain ⟨hseq, hlen, hslots, hreaders, hpending⟩ := ih (s.write value)
    simp only [List.replicate_succ, Transition.run_cons, RingSystem.step]
    refine ⟨?_, ?_, hslots, hreaders, fun _ => hpending rfl⟩
    · rw [hseq, UInt64.ofNat_add, UInt64.add_comm (UInt64.ofNat m), ← UInt64.add_assoc]
      rfl
    · rw [hlen]
      simp only [write, List.length_append, List.length_singleton]
      omega

def oneSlot : Ring Unit := ⟨1, 0, [freeReader], Vector.replicate _ (), Nat.one_pos⟩

def wrapped : List (RingStep Unit) := .connect 0 :: List.replicate (2 ^ 64) (.write ())

/-- After 2^64 commits `write_seq` is back at the cursor of a reader that has
read nothing, and the reader is told there is nothing to read. -/
theorem wrapped_not_refines :
    Transition.Guarded RingSystem.step BetweenWrites (start oneSlot ⟨0, false⟩) wrapped ∧
      ¬ Refines (start oneSlot ⟨0, false⟩) wrapped := by
  constructor
  · refine Transition.guarded_cons.mpr ⟨rfl, Transition.guarded_of_forall ?_⟩
    intro i hi t
    rw [List.eq_of_mem_replicate hi]
    trivial
  · intro h
    obtain ⟨hseq, hlen, hslots, hreaders, hpending⟩ :=
      run_writes () (2 ^ 64) ((start oneSlot ⟨0, false⟩).step (.connect 0))
    have hend := h.serves.last
    rw [wrapped, Transition.run_cons] at hend
    generalize Transition.run RingSystem.step ((start oneSlot ⟨0, false⟩).step (.connect 0))
      (List.replicate (2 ^ 64) (.write ())) = t at *
    have hreader : t.readers 0 = some 0 := hreaders ▸ rfl
    have hwrapped : t.ring.writeSeq = 0 := hseq.trans (by decide)
    have hcursor : t.ring.readSeq 0 = 0 := by
      rw [Ring.readSeq, hslots]
      rfl
    have hbehind : (t.ring.readSeq 0).toNat < t.log.length := by
      rw [hcursor, hlen, UInt64.toNat_zero]
      exact Nat.add_pos_right _ (Nat.two_pow_pos 64)
    obtain ⟨_, _, _, _, _, _, _, _, hsome, _⟩ := (hend 0 0 hreader).behind (hpending rfl) hbehind
    rw [Ring.tryRead_caughtUp (hcursor.trans hwrapped.symm)] at hsome
    cases hsome

end Wrap

end Nnxt.RingLog
