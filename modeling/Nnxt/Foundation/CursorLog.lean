import Mathlib.Logic.Function.Basic
import Nnxt.Foundation.Transition

/-!
# Append-only logs read through cursors

One writer appends; any number of readers attach at the end of the log, each
with a cursor of its own. Only the last `capacity` entries are retained, so a
reader that falls behind is moved forward to the oldest entry retained.
-/

namespace CursorLog

set_option autoImplicit false

universe u v
variable {R : Type u} {V : Type v}

structure Delivery (R : Type u) (V : Type v) where
  reader : R
  position : Nat
  value : V

structure Log (R : Type u) (V : Type v) where
  entries : List V
  cursor : R → Option Nat
  deliveries : List (Delivery R V)

inductive Op (R : Type u) (V : Type v) where
  | append (value : V)
  | attach (reader : R)
  | read (reader : R)
  | detach (reader : R)

/-- The position a reader at `c` is served when `n` entries have been appended. -/
def nextPosition (capacity n c : Nat) : Nat := max c (n - capacity)

section Steps
variable [DecidableEq R] (capacity : Nat)

def Log.moveCursor (l : Log R V) (reader : R) (target : Option Nat) : Log R V :=
  { l with cursor := Function.update l.cursor reader target }

def Log.serve (l : Log R V) (reader : R) (position : Nat) (value : V) : Log R V :=
  { l.moveCursor reader (some (position + 1)) with
    deliveries := l.deliveries ++ [⟨reader, position, value⟩] }

def step (l : Log R V) : Op R V → Log R V
  | .append value => { l with entries := l.entries ++ [value] }
  | .attach reader =>
    if l.cursor reader = none then l.moveCursor reader (some l.entries.length) else l
  | .read reader =>
    match l.cursor reader with
    | none => l
    | some c =>
      match l.entries[nextPosition capacity l.entries.length c]? with
      | none => l
      | some value => l.serve reader (nextPosition capacity l.entries.length c) value
  | .detach reader => l.moveCursor reader none

def empty : Log R V := ⟨[], fun _ => none, []⟩

variable {capacity}

@[simp] theorem moveCursor_self (l : Log R V) (reader : R) (target : Option Nat) :
    (l.moveCursor reader target).cursor reader = target := Function.update_self _ _ _

@[simp] theorem moveCursor_ne (l : Log R V) {reader other : R} (target : Option Nat)
    (hne : other ≠ reader) : (l.moveCursor reader target).cursor other = l.cursor other :=
  Function.update_of_ne hne _ _

theorem nextPosition_self {n : Nat} : nextPosition capacity n n = n := by
  unfold nextPosition
  omega

/-- An entry is passed over only when more than `capacity` entries are unread. -/
theorem lagging_of_skips {n c : Nat} (h : nextPosition capacity n c ≠ c) : capacity < n - c := by
  unfold nextPosition at h
  omega

theorem read_cases (capacity : Nat) (l : Log R V) (reader : R) :
    (step capacity l (.read reader) = l ∧
      ∀ c, l.cursor reader = some c →
        l.entries[nextPosition capacity l.entries.length c]? = none) ∨
    ∃ c value, l.cursor reader = some c ∧
      l.entries[nextPosition capacity l.entries.length c]? = some value ∧
      step capacity l (.read reader) =
        l.serve reader (nextPosition capacity l.entries.length c) value := by
  cases hc : l.cursor reader with
  | none =>
    refine Or.inl ⟨?_, ?_⟩
    · simp only [step, hc]
    · intro c h
      cases h
  | some c =>
    cases hv : l.entries[nextPosition capacity l.entries.length c]? with
    | none =>
      refine Or.inl ⟨?_, ?_⟩
      · simp only [step, hc, hv]
      · intro c' h
        cases h
        exact hv
    | some value =>
      refine Or.inr ⟨c, value, rfl, hv, ?_⟩
      simp only [step, hc, hv]

end Steps

section Invariant

/-- Cursors stay within the log; what was delivered is what the log holds; a
reader's positions grow. -/
structure Sound (l : Log R V) : Prop where
  cursor_le : ∀ r c, l.cursor r = some c → c ≤ l.entries.length
  delivered : ∀ d ∈ l.deliveries, l.entries[d.position]? = some d.value
  behind : ∀ d ∈ l.deliveries, ∀ c, l.cursor d.reader = some c → d.position < c
  increasing : l.deliveries.Pairwise fun d d' => d.reader = d'.reader → d.position < d'.position

theorem sound_empty : Sound (empty : Log R V) := by
  refine ⟨?_, ?_, ?_, List.Pairwise.nil⟩
  · intro r c h
    cases h
  · intro d hd
    cases hd
  · intro d hd
    cases hd

theorem Sound.position_lt {l : Log R V} (h : Sound l) {d : Delivery R V} (hd : d ∈ l.deliveries) :
    d.position < l.entries.length :=
  (List.getElem?_eq_some_iff.mp (h.delivered d hd)).1

theorem Sound.append {l : Log R V} (h : Sound l) (value : V) :
    Sound { l with entries := l.entries ++ [value] } where
  cursor_le := by
    intro r c hc
    have := h.cursor_le r c hc
    simp only [List.length_append, List.length_singleton]
    omega
  delivered := by
    intro d hd
    rw [List.getElem?_append_left (h.position_lt hd)]
    exact h.delivered d hd
  behind := h.behind
  increasing := h.increasing

variable [DecidableEq R] {capacity : Nat}

/-- Moving one cursor keeps the invariant when it stays within the log and
ahead of everything its reader has received. -/
theorem Sound.moveCursor {l : Log R V} (h : Sound l) (reader : R) (target : Option Nat)
    (hle : ∀ c, target = some c → c ≤ l.entries.length)
    (hahead : ∀ c, target = some c → ∀ d ∈ l.deliveries, d.reader = reader → d.position < c) :
    Sound (l.moveCursor reader target) where
  cursor_le := by
    intro r c hc
    by_cases hr : r = reader
    · subst hr
      rw [moveCursor_self] at hc
      exact hle c hc
    · rw [moveCursor_ne _ _ hr] at hc
      exact h.cursor_le r c hc
  delivered := h.delivered
  behind := by
    intro d hd c hc
    by_cases hr : d.reader = reader
    · rw [hr, moveCursor_self] at hc
      exact hahead c hc d hd hr
    · rw [moveCursor_ne _ _ hr] at hc
      exact h.behind d hd c hc
  increasing := h.increasing

theorem Sound.serve {l : Log R V} (h : Sound l) {reader : R} {c position : Nat} {value : V}
    (hc : l.cursor reader = some c) (hle : c ≤ position)
    (hv : l.entries[position]? = some value) : Sound (l.serve reader position value) := by
  have hlt := (List.getElem?_eq_some_iff.mp hv).1
  have hbefore : ∀ d ∈ l.deliveries, d.reader = reader → d.position < position := by
    intro d hd hr
    have := h.behind d hd c (hr ▸ hc)
    omega
  have hmoved := h.moveCursor reader (some (position + 1))
    (by intro c' hc'; cases hc'; omega)
    (by
      intro c' hc' d hd hr
      cases hc'
      exact Nat.lt_succ_of_lt (hbefore d hd hr))
  refine ⟨hmoved.cursor_le, ?_, ?_, ?_⟩
  · intro d hd
    rcases List.mem_append.mp hd with hd | hd
    · exact h.delivered d hd
    · rw [List.mem_singleton.mp hd]
      exact hv
  · intro d hd
    rcases List.mem_append.mp hd with hd | hd
    · exact hmoved.behind d hd
    · rw [List.mem_singleton.mp hd]
      intro c' hc'
      have hmove : some (position + 1) = some c' := (moveCursor_self l reader _).symm.trans hc'
      cases hmove
      exact Nat.lt_succ_self position
  · refine List.pairwise_append.mpr ⟨h.increasing, List.pairwise_singleton _ _, ?_⟩
    intro d hd d' hd' hr
    rw [List.mem_singleton.mp hd'] at hr ⊢
    exact hbefore d hd hr

theorem Sound.step {l : Log R V} (h : Sound l) (op : Op R V) : Sound (step capacity l op) := by
  cases op with
  | append value => exact h.append value
  | attach reader =>
    simp only [CursorLog.step]
    split
    · refine h.moveCursor reader _ ?_ ?_
      · intro c hc
        cases hc
        exact Nat.le_refl _
      · intro c hc d hd _
        cases hc
        exact h.position_lt hd
    · exact h
  | read reader =>
    rcases read_cases capacity l reader with ⟨heq, _⟩ | ⟨c, value, hc, hv, heq⟩
    · rw [heq]
      exact h
    · rw [heq]
      exact h.serve hc (Nat.le_max_left _ _) hv
  | detach reader =>
    refine h.moveCursor reader none ?_ ?_
    · intro c hc
      cases hc
    · intro c hc
      cases hc

theorem Sound.run {l : Log R V} (h : Sound l) (ops : List (Op R V)) :
    Sound (Transition.run (CursorLog.step capacity) l ops) :=
  (Transition.always_of_step (fun _ op h => h.step op) h ops).last

end Invariant

section Connection
variable [DecidableEq R] {capacity : Nat}

/-- Nothing before `start` has reached the reader since `count` deliveries were made. -/
structure From (reader : R) (start count : Nat) (l : Log R V) : Prop where
  start_le : start ≤ l.entries.length
  cursor_ge : ∀ c, l.cursor reader = some c → start ≤ c
  count_le : count ≤ l.deliveries.length
  received : ∀ d ∈ l.deliveries.drop count, d.reader = reader → start ≤ d.position

theorem From.moveCursor {reader : R} {start count : Nat} {l : Log R V}
    (h : From reader start count l) (other : R) (target : Option Nat)
    (hge : ∀ c, target = some c → start ≤ c ∨ other ≠ reader) :
    From reader start count (l.moveCursor other target) where
  start_le := h.start_le
  cursor_ge := by
    intro c hc
    by_cases hr : reader = other
    · subst hr
      rw [moveCursor_self] at hc
      exact (hge c hc).resolve_right (fun hne => hne rfl)
    · rw [moveCursor_ne _ _ hr] at hc
      exact h.cursor_ge c hc
  count_le := h.count_le
  received := h.received

theorem From.step {reader : R} {start count : Nat} {l : Log R V} (h : From reader start count l)
    (op : Op R V) : From reader start count (CursorLog.step capacity l op) := by
  cases op with
  | append value =>
    refine ⟨?_, h.cursor_ge, h.count_le, h.received⟩
    have := h.start_le
    simp only [CursorLog.step, List.length_append]
    omega
  | attach other =>
    simp only [CursorLog.step]
    split
    · refine h.moveCursor other _ ?_
      intro c hc
      cases hc
      exact Or.inl h.start_le
    · exact h
  | read other =>
    rcases read_cases capacity l other with ⟨heq, _⟩ | ⟨c, value, hc, hv, heq⟩
    · rw [heq]
      exact h
    · rw [heq]
      have hpos : other = reader → start ≤ nextPosition capacity l.entries.length c := by
        intro hr
        have := h.cursor_ge c (hr ▸ hc)
        unfold nextPosition
        omega
      have hmoved := h.moveCursor other (some (nextPosition capacity l.entries.length c + 1))
        (by
          intro c' hc'
          cases hc'
          by_cases hr : other = reader
          · exact Or.inl (Nat.le_succ_of_le (hpos hr))
          · exact Or.inr hr)
      refine ⟨h.start_le, hmoved.cursor_ge, ?_, ?_⟩
      · have := h.count_le
        simp only [Log.serve, List.length_append]
        omega
      · intro d hd hr
        simp only [Log.serve, List.drop_append_of_le_length h.count_le] at hd
        rcases List.mem_append.mp hd with hd | hd
        · exact h.received d hd hr
        · rw [List.mem_singleton.mp hd] at hr ⊢
          exact hpos hr
  | detach other =>
    refine h.moveCursor other none ?_
    intro c hc
    cases hc

/-- From a state where the reader stands at `start`, it is never handed an
earlier entry. -/
theorem from_run (capacity : Nat) {reader : R} {start : Nat} {l : Log R V} (h : Sound l)
    (hc : l.cursor reader = some start) (ops : List (Op R V)) :
    From reader start l.deliveries.length (Transition.run (step capacity) l ops) := by
  refine (Transition.always_of_step (fun _ op h => h.step op) ?_ ops).last
  refine ⟨h.cursor_le _ _ hc, ?_, Nat.le_refl _, ?_⟩
  · intro c hc'
    rw [hc, Option.some.injEq] at hc'
    omega
  · intro d hd
    rw [List.drop_length] at hd
    cases hd

end Connection

section Isolation
variable [DecidableEq R] {capacity : Nat}

/-- The operations a reader's view may depend on: appends and its own. -/
def Op.concerns (reader : R) : Op R V → Bool
  | .append _ => true
  | .attach r | .read r | .detach r => r = reader

structure SameView (reader : R) (l l' : Log R V) : Prop where
  entries : l.entries = l'.entries
  cursor : l.cursor reader = l'.cursor reader
  received : l.deliveries.filter (·.reader = reader) = l'.deliveries.filter (·.reader = reader)

theorem SameView.refl (reader : R) (l : Log R V) : SameView reader l l := ⟨rfl, rfl, rfl⟩

theorem sameView_other {reader : R} {op : Op R V} (hop : op.concerns reader = false)
    (l : Log R V) : SameView reader (step capacity l op) l := by
  cases op with
  | append value => cases hop
  | attach other =>
    have hne : reader ≠ other := fun h => by simp [Op.concerns, h] at hop
    simp only [step]
    split
    · exact ⟨rfl, moveCursor_ne _ _ hne, rfl⟩
    · exact .refl reader l
  | read other =>
    have hne : reader ≠ other := fun h => by simp [Op.concerns, h] at hop
    rcases read_cases capacity l other with ⟨heq, _⟩ | ⟨c, value, _, _, heq⟩
    · rw [heq]
      exact .refl reader l
    · rw [heq]
      refine ⟨rfl, moveCursor_ne _ _ hne, ?_⟩
      simp [Log.serve, Ne.symm hne]
  | detach other =>
    have hne : reader ≠ other := fun h => by simp [Op.concerns, h] at hop
    exact ⟨rfl, moveCursor_ne _ _ hne, rfl⟩

/-- A step the reader's view may depend on does the same in every log it cannot tell apart. -/
theorem SameView.step {reader : R} {op : Op R V} {l l' : Log R V} (h : SameView reader l l')
    (hop : op.concerns reader = true) :
    SameView reader (step capacity l op) (CursorLog.step capacity l' op) := by
  obtain ⟨hentries, hcursor, hreceived⟩ := h
  cases op with
  | append value => exact ⟨by simp only [CursorLog.step, hentries], hcursor, hreceived⟩
  | attach other =>
    obtain rfl : other = reader := by simpa [Op.concerns] using hop
    simp only [CursorLog.step]
    rw [hcursor]
    split
    · exact ⟨hentries, by rw [moveCursor_self, moveCursor_self, hentries], hreceived⟩
    · exact ⟨hentries, hcursor, hreceived⟩
  | read other =>
    obtain rfl : other = reader := by simpa [Op.concerns] using hop
    simp only [CursorLog.step, hcursor, hentries]
    split
    · exact ⟨hentries, hcursor, hreceived⟩
    · split
      · exact ⟨hentries, hcursor, hreceived⟩
      · refine ⟨hentries, ?_, ?_⟩
        · exact (moveCursor_self _ _ _).trans (moveCursor_self _ _ _).symm
        · simp only [Log.serve, List.filter_append, hreceived]
  | detach other =>
    obtain rfl : other = reader := by simpa [Op.concerns] using hop
    exact ⟨hentries, (moveCursor_self _ _ _).trans (moveCursor_self _ _ _).symm, hreceived⟩

/-- A reader receives what it would receive with all other readers' operations left out. -/
theorem sameView_run {reader : R} {l l' : Log R V} (h : SameView reader l l')
    (ops : List (Op R V)) :
    SameView reader (Transition.run (step capacity) l ops)
      (Transition.run (step capacity) l' (ops.filter (·.concerns reader))) := by
  induction ops generalizing l l' with
  | nil => exact h
  | cons op ops ih =>
    cases hop : op.concerns reader with
    | true =>
      rw [List.filter_cons_of_pos hop]
      exact ih (h.step hop)
    | false =>
      rw [List.filter_cons_of_neg (by simp [hop])]
      have hother := @sameView_other _ _ _ capacity _ _ hop l
      exact ih ⟨hother.entries.trans h.entries, hother.cursor.trans h.cursor,
        hother.received.trans h.received⟩

end Isolation

end CursorLog
