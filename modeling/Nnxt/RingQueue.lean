import Nnxt.RingLog

/-!
# A ring read in time is a queue

As long as a reader stays within the capacity behind the writer, what it has not
read yet is a queue: a write appends to it, `try_read` takes its head, and no
other reader changes it.
-/

namespace Nnxt.RingSystem

set_option autoImplicit false

variable {T : Type}

/-- What has been committed and not been read by the reader. -/
def unread (s : RingSystem T) (reader : Nat) : List T :=
  s.log.drop ((s.cursor reader).getD s.log.length)

/-- `try_read`, with the value behind the reference it returns. -/
def take (s : RingSystem T) (reader : Nat) : RingSystem T × Option T :=
  (s.step (.tryRead reader),
   (s.readers reader).bind fun slot =>
     (s.ring.tryRead slot).2.map (s.ring.tryRead slot).1.load)

/-- Successive calls of `write`. -/
def writes (s : RingSystem T) (values : List T) : RingSystem T :=
  values.foldl (fun s value => s.step (.write value)) s

/-- The reader is at most a capacity behind. -/
def InReach (s : RingSystem T) (reader : Nat) : Prop :=
  ∀ c ∈ s.cursor reader, s.log.length ≤ c + s.ring.capacity.toNat

instance (s : RingSystem T) (reader : Nat) : Decidable (s.InReach reader) :=
  inferInstanceAs (Decidable (∀ c ∈ s.cursor reader, _))

/-- A connected reader that no write has overtaken, between two writes. -/
structure Serving (s : RingSystem T) (reader : Nat) : Prop where
  inv : s.Inv
  idle : s.writer.hasPending = false
  connected : s.readers reader ≠ none
  inReach : s.InReach reader

/-- What another process may do to a ring it only reads. -/
inductive Visit where
  | connect
  | tryRead
  | drop

def Visit.ringStep (visitor : Nat) : Visit → RingStep T
  | .connect => .connect visitor
  | .tryRead => .tryRead visitor
  | .drop => .drop visitor

section Writes
variable {s : RingSystem T} {reader : Nat}

theorem log_writes (s : RingSystem T) (values : List T) :
    (s.writes values).log = s.log ++ values := by
  induction values generalizing s with
  | nil => exact (List.append_nil _).symm
  | cons value values ih =>
    have hrest := ih (s.step (.write value))
    rw [writes] at hrest ⊢
    rw [List.foldl_cons, hrest]
    exact List.append_cons _ _ _ |>.symm

theorem cursor_writes (s : RingSystem T) (values : List T) :
    (s.writes values).cursor = s.cursor := by
  induction values generalizing s with
  | nil => rfl
  | cons value values ih => exact ih (s.step (.write value))

theorem readers_writes (s : RingSystem T) (values : List T) :
    (s.writes values).readers = s.readers := by
  induction values generalizing s with
  | nil => rfl
  | cons value values ih => exact ih (s.step (.write value))

theorem capacity_writes (s : RingSystem T) (values : List T) :
    (s.writes values).ring.capacity = s.ring.capacity := by
  induction values generalizing s with
  | nil => rfl
  | cons value values ih => exact ih (s.step (.write value))

theorem hasPending_writes (h : s.writer.hasPending = false) (values : List T) :
    (s.writes values).writer.hasPending = false := by
  induction values generalizing s with
  | nil => exact h
  | cons value values ih => exact @ih (s.step (.write value)) rfl

theorem Inv.writes (h : s.Inv) {values : List T}
    (hfew : (s.writes values).log.length < 2 ^ 64) : (s.writes values).Inv := by
  induction values generalizing s with
  | nil => exact h
  | cons value values ih =>
    have hprefix := (log_writes (s.step (.write value)) values).symm ▸
      List.prefix_append (s.step (.write value)).log values
    exact ih (h.step (.write value) (Nat.lt_of_le_of_lt hprefix.length_le hfew)) hfew

/-- Writes append to what is unread. -/
theorem Serving.writes (h : s.Serving reader) {values : List T}
    (hfew : (s.writes values).log.length < 2 ^ 64) (hreach : (s.writes values).InReach reader) :
    (s.writes values).Serving reader ∧
      (s.writes values).unread reader = s.unread reader ++ values := by
  refine ⟨⟨h.inv.writes hfew, hasPending_writes h.idle values, ?_, hreach⟩, ?_⟩
  · rw [readers_writes]
    exact h.connected
  · obtain ⟨slot, hr⟩ := Option.ne_none_iff_exists'.mp h.connected
    have hle := h.inv.cursors.cursor_le reader slot hr
    rw [unread, unread, cursor_writes, log_writes, cursor_of_some hr, Option.getD_some,
      Option.getD_some, List.drop_append_of_le_length hle]

end Writes

section Take
variable {s : RingSystem T} {reader : Nat}

theorem unread_of_slot {slot : Nat} (hr : s.readers reader = some slot) :
    s.unread reader = s.log.drop (s.ring.readSeq slot).toNat := by
  rw [unread, cursor_of_some hr, Option.getD_some]

/-- With nothing unread `try_read` returns nothing and changes nothing. -/
theorem Serving.take_nil (h : s.Serving reader) (hnil : s.unread reader = []) :
    s.take reader = (s, none) := by
  obtain ⟨slot, hr⟩ := Option.ne_none_iff_exists'.mp h.connected
  rcases h.inv.caughtUp_or_behind hr with hc | hb
  · simp only [take, RingSystem.step, hr, Ring.tryRead_caughtUp hc, received, Option.bind_some,
      Option.map_none]
  · rw [unread_of_slot hr, List.drop_eq_nil_iff, ← h.inv.stored.writeSeq] at hnil
    rw [UInt64.lt_iff_toNat_lt] at hb
    omega

/-- Within the capacity nothing is skipped. -/
theorem Serving.served_eq (h : s.Serving reader) {slot : Nat} (hr : s.readers reader = some slot) :
    (s.ring.served slot).toNat = (s.ring.readSeq slot).toNat := by
  have hlag := h.inReach _ (cursor_of_some hr)
  rw [RingLog.nextPosition_served h.inv hr, CursorLog.nextPosition]
  omega

/-- `try_read` takes the head of what is unread. -/
theorem Serving.take_cons (h : s.Serving reader) {value : T} {rest : List T}
    (hcons : s.unread reader = value :: rest) :
    (s.take reader).2 = some value ∧ (s.take reader).1.unread reader = rest ∧
      (s.take reader).1.Serving reader := by
  obtain ⟨slot, hr⟩ := Option.ne_none_iff_exists'.mp h.connected
  rw [unread_of_slot hr] at hcons
  rcases h.inv.caughtUp_or_behind hr with hc | hb
  · rw [hc, h.inv.stored.writeSeq, List.drop_length] at hcons
    cases hcons
  · have hstep : s.step (.tryRead reader) = s.advance reader slot := by
      simp only [RingSystem.step, hr, Ring.tryRead_behind hb, RingSystem.advance]
    have hvalue := RingLog.load_served h.inv h.idle hr hb
    rw [h.served_eq hr] at hvalue
    have hhead : s.log[(s.ring.readSeq slot).toNat]? = some value := by
      rw [← List.head?_drop, hcons, List.head?_cons]
    have hcursor := h.inv.cursor_advance hr hb
    rw [h.served_eq hr] at hcursor
    have hnext : (s.advance reader slot).cursor reader =
        some ((s.ring.readSeq slot).toNat + 1) := by
      rw [hcursor, Function.update_self]
    simp only [take, hstep]
    refine ⟨?_, ?_, h.inv.advance hr hb, h.idle, ?_, ?_⟩
    · rw [hr, Option.bind_some, Ring.tryRead_behind hb, Option.map_some, Ring.storeReader_load,
        ← hvalue, hhead]
    · rw [unread, hnext, Option.getD_some]
      have htail := congrArg List.tail hcons
      rw [List.tail_drop, List.tail_cons] at htail
      exact htail
    · rw [RingSystem.advance, received, hr]
      exact Option.some_ne_none slot
    · intro c hc
      rw [hnext, Option.mem_some_iff] at hc
      have hlag := h.inReach _ (cursor_of_some hr)
      rw [← hc]
      exact Nat.le_trans hlag (by simp only [RingSystem.advance, received, Ring.storeReader]; omega)

end Take

section Visits
variable {s : RingSystem T} {reader visitor : Nat}

theorem visit_log (s : RingSystem T) (v : Visit) : (s.step (v.ringStep visitor)).log = s.log := by
  cases v with
  | connect => exact connect_log s visitor
  | tryRead => exact tryRead_log s visitor
  | drop =>
    simp only [Visit.ringStep, RingSystem.step]
    split <;> rfl

theorem Inv.visit_cursor (h : s.Inv) (hne : reader ≠ visitor) (v : Visit) :
    (s.step (v.ringStep visitor)).cursor reader = s.cursor reader := by
  cases v with
  | connect =>
    simp only [Visit.ringStep, RingSystem.step, RingSystem.connect]
    split
    · rename_i ring slot _ hok
      obtain ⟨hlt, hfree, rfl⟩ := s.ring.connect_ok hok
      rw [h.cursor_attach visitor hlt hfree, Function.update_of_ne hne]
    · rfl
  | tryRead =>
    cases h.tryRead_outcome visitor with
    | nothing hs => exact congrArg (fun t => t.cursor reader) hs
    | entry slot hr hb hs =>
      have hs' : s.step (Visit.tryRead.ringStep visitor) = s.advance visitor slot := hs
      rw [hs', h.cursor_advance hr hb, Function.update_of_ne hne]
  | drop =>
    simp only [Visit.ringStep, RingSystem.step]
    split
    · rfl
    · rename_i slot hr
      rw [h.cursor_detach hr, Function.update_of_ne hne]

theorem visit_hasPending (s : RingSystem T) (v : Visit) :
    (s.step (v.ringStep visitor)).writer.hasPending = s.writer.hasPending := by
  cases v with
  | connect =>
    simp only [Visit.ringStep, RingSystem.step, RingSystem.connect]
    split <;> rfl
  | tryRead =>
    simp only [Visit.ringStep, RingSystem.step]
    split
    · rfl
    · unfold received
      split <;> rfl
  | drop =>
    simp only [Visit.ringStep, RingSystem.step]
    split <;> rfl

theorem Serving.visit (h : s.Serving reader) (hne : reader ≠ visitor) (v : Visit) :
    (s.step (v.ringStep visitor)).Serving reader ∧
      (s.step (v.ringStep visitor)).unread reader = s.unread reader := by
  have hcursor := h.inv.visit_cursor hne v
  have hlog : (s.step (v.ringStep visitor)).log = s.log := visit_log s v
  have hfew : (s.step (v.ringStep visitor)).log.length < 2 ^ 64 := by
    rw [hlog]
    exact h.inv.stored.few
  refine ⟨⟨h.inv.step _ hfew, by rw [visit_hasPending]; exact h.idle, ?_, ?_⟩, ?_⟩
  · intro hnone
    rw [cursor_of_none hnone] at hcursor
    obtain ⟨slot, hr⟩ := Option.ne_none_iff_exists'.mp h.connected
    rw [cursor_of_some hr] at hcursor
    cases hcursor
  · intro c hc
    rw [hcursor] at hc
    rw [hlog, h.inv.capacity_step]
    exact h.inReach c hc
  · rw [unread, unread, hcursor, hlog]

end Visits

/-- A reader that has just connected to a ring others have used before. -/
structure Joined (s : RingSystem T) (reader : Nat) : Prop where
  inv : s.Inv
  idle : s.writer.hasPending = false
  cursor : s.cursor reader = some s.log.length

end Nnxt.RingSystem
