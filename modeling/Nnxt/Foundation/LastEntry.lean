import Mathlib.Algebra.Order.Ring.Int
import Nnxt.Foundation.CursorLog

/-!
# The last entry of a kind

Readers that keep only the last entry of some kind they have been given. A reader may
have been moved past any number of entries; if the last one of the kind is still
retained when all of the readers have passed it, it is the one they were given last.
-/

namespace CursorLog

set_option autoImplicit false

universe u v
variable {R : Type u} {V : Type v} {P : V → Prop} {Q : R → Prop}

/-- The last entry of the kind `P` stands at `position`. -/
structure IsLast (P : V → Prop) (entries : List V) (position : Nat) (value : V) : Prop where
  at_position : entries[position]? = some value
  kind : P value
  none_later : ∀ later, position < later → ∀ value ∈ entries[later]?, ¬P value

theorem IsLast.lt {entries : List V} {position : Nat} {value : V}
    (h : IsLast P entries position value) : position < entries.length :=
  (List.getElem?_eq_some_iff.mp h.at_position).1

/-- The last entry of a longer log is the new entry, or was the last one before. -/
theorem IsLast.of_append {entries : List V} {position : Nat} {value new : V}
    (h : IsLast P (entries ++ [new]) position value) :
    position = entries.length ∨ IsLast P entries position value := by
  have hlt := h.lt
  rw [List.length_append, List.length_singleton] at hlt
  by_cases hend : position = entries.length
  · exact .inl hend
  · right
    have hold := h.at_position
    rw [List.getElem?_append_left (by omega)] at hold
    refine ⟨hold, h.kind, fun later hlater value hvalue => ?_⟩
    have hbound := (List.getElem?_eq_some_iff.mp hvalue).1
    refine h.none_later later hlater value ?_
    rw [List.getElem?_append_left hbound]
    exact hvalue

/-- Entries at the end, each of a kind of its own, are the last of their kinds. -/
theorem isLast_of_mem_append {K : Type v} {key : V → K} {entries new : List V}
    (hnodup : (new.map key).Nodup) {value : V} (hvalue : value ∈ new) :
    ∃ position, entries.length ≤ position ∧
      IsLast (fun v => key v = key value) (entries ++ new) position value := by
  obtain ⟨n, hlt, rfl⟩ := List.mem_iff_getElem.mp hvalue
  refine ⟨entries.length + n, Nat.le_add_right _ _, ?_, rfl, ?_⟩
  · rw [List.getElem?_append_right (Nat.le_add_right _ _), Nat.add_sub_cancel_left,
      List.getElem?_eq_getElem hlt]
  · intro later hlater value' hvalue' hkey
    rw [List.getElem?_append_right (by omega)] at hvalue'
    obtain ⟨hlt', rfl⟩ := List.getElem?_eq_some_iff.mp hvalue'
    have hbound : n < (new.map key).length := by rwa [List.length_map]
    have hbound' : later - entries.length < (new.map key).length := by rwa [List.length_map]
    have hkeys : (new.map key)[later - entries.length] = (new.map key)[n] := by
      rw [List.getElem_map, List.getElem_map]
      exact hkey
    have hsame := (List.getElem_inj hnodup).mp hkeys
    omega

/-- What has been handed out last to one of the readers `Q`, among what is of the kind `P`. -/
def lastDelivery [DecidablePred P] [DecidablePred Q] (deliveries : List (Delivery R V)) :
    Option (Delivery R V) :=
  (deliveries.filter fun d => Q d.reader ∧ P d.value).getLast?

/-- From `start` on: once all the readers are past the last entry of the kind, they have
it, if it has been retained until now. -/
def UpToDate (P : V → Prop) (Q : R → Prop) [DecidablePred P] [DecidablePred Q]
    (capacity start : Nat) (l : Log R V) : Prop :=
  ∀ position value, IsLast P l.entries position value → start ≤ position →
    l.entries.length ≤ position + capacity →
    (∀ r, Q r → ∀ c, l.cursor r = some c → position < c) →
    (@lastDelivery R V P Q _ _ l.deliveries).map (·.value) = some value

section Steps
variable [DecidablePred P] [DecidablePred Q] {capacity start : Nat} {l : Log R V}

theorem lastDelivery_append_of_not {d : Delivery R V} (deliveries : List (Delivery R V))
    (h : ¬(Q d.reader ∧ P d.value)) :
    @lastDelivery R V P Q _ _ (deliveries ++ [d]) = @lastDelivery R V P Q _ _ deliveries := by
  rw [lastDelivery, lastDelivery, List.filter_append, List.filter_cons_of_neg (by simpa using h),
    List.filter_nil, List.append_nil]

theorem lastDelivery_append_of {d : Delivery R V} (deliveries : List (Delivery R V))
    (h : Q d.reader ∧ P d.value) :
    @lastDelivery R V P Q _ _ (deliveries ++ [d]) = some d := by
  rw [lastDelivery, List.filter_append, List.filter_cons_of_pos (by simpa using h),
    List.filter_nil, List.getLast?_concat]

/-- Readers that stand at the end of the log have nothing to catch up on. -/
theorem upToDate_of_start (hstart : l.entries.length ≤ start) :
    UpToDate P Q capacity start l := by
  intro position value hlast hle
  have hlt := hlast.lt
  omega

theorem UpToDate.append (h : UpToDate P Q capacity start l) (hsound : Sound l)
    {r : R} (hr : Q r) (hconnected : l.cursor r ≠ none) (new : V) :
    UpToDate P Q capacity start { l with entries := l.entries ++ [new] } := by
  intro position value hlast hstart hretained hpassed
  simp only [List.length_append, List.length_singleton] at hretained
  rcases hlast.of_append with hend | hold
  · -- nobody has passed the new entry yet
    obtain ⟨c, hc⟩ := Option.ne_none_iff_exists'.mp hconnected
    have hpast := hpassed r hr c hc
    have hle := hsound.cursor_le r c hc
    omega
  · exact h position value hold hstart (by omega) hpassed

theorem UpToDate.moveCursor [DecidableEq R] (h : UpToDate P Q capacity start l) {reader : R}
    (hreader : ¬Q reader) (target : Option Nat) :
    UpToDate P Q capacity start (l.moveCursor reader target) := by
  intro position value hlast hstart hretained hpassed
  refine h position value hlast hstart hretained fun r hr c hc => hpassed r hr c ?_
  have hne : r ≠ reader := by
    rintro rfl
    exact hreader hr
  rw [moveCursor_ne l target hne, hc]

/-- An entry of the kind that is handed out before the last one is passed is either an
older one, and then the last one has not been passed, or the last one itself. -/
theorem UpToDate.serve [DecidableEq R] (h : UpToDate P Q capacity start l) {reader : R} {c : Nat}
    {value : V} (hc : l.cursor reader = some c)
    (hvalue : l.entries[nextPosition capacity l.entries.length c]? = some value) :
    UpToDate P Q capacity start
      (l.serve reader (nextPosition capacity l.entries.length c) value) := by
  by_cases hreader : Q reader
  · intro position last hlast hstart hretained hpassed
    have hserved := hpassed reader hreader _ (moveCursor_self l reader _)
    have hlater := fun r (hr : Q r) c (hc : l.cursor r = some c) (hne : r ≠ reader) =>
      hpassed r hr c ((moveCursor_ne l _ hne).trans hc)
    by_cases hkind : P value
    · -- the entry of the kind is the last one
      have hle : nextPosition capacity l.entries.length c ≤ position := by
        by_contra hlt
        exact hlast.none_later _ (Nat.lt_of_not_le hlt) value hvalue hkind
      have hsame : nextPosition capacity l.entries.length c = position := by omega
      have hentry := hlast.at_position
      simp only [Log.serve, Log.moveCursor] at hentry ⊢
      rw [← hsame, hvalue] at hentry
      rw [lastDelivery_append_of _ ⟨hreader, hkind⟩, Option.map_some]
      exact hentry
    · simp only [Log.serve, Log.moveCursor] at hretained ⊢
      rw [lastDelivery_append_of_not _ fun hboth => hkind hboth.2]
      refine h position last hlast hstart hretained fun r hr c' hc' => ?_
      by_cases hr' : r = reader
      · subst hr'
        cases hc.symm.trans hc'
        have hne : nextPosition capacity l.entries.length c ≠ position := by
          intro heq
          have hentry : l.entries[position]? = some last := hlast.at_position
          rw [← heq, hvalue, Option.some.injEq] at hentry
          exact hkind (hentry ▸ hlast.kind)
        unfold nextPosition at hserved hne
        omega
      · exact hlater r hr c' hc' hr'
  · have hmoved := h.moveCursor hreader (some (nextPosition capacity l.entries.length c + 1))
    intro position last hlast hstart hretained hpassed
    simp only [Log.serve]
    rw [lastDelivery_append_of_not _ fun hboth => hreader hboth.1]
    exact hmoved position last hlast hstart hretained hpassed

variable [DecidableEq R]

/-- The readers stay attached. -/
def KeepsAttached (Q : R → Prop) : Op R V → Prop
  | .detach reader => ¬Q reader
  | _ => True

/-- What is kept while the readers stay attached. -/
structure Following (P : V → Prop) (Q : R → Prop) [DecidablePred P] [DecidablePred Q]
    (capacity start : Nat) (l : Log R V) : Prop where
  sound : Sound l
  attached : ∀ r, Q r → l.cursor r ≠ none
  upToDate : UpToDate P Q capacity start l

theorem Following.step (h : Following P Q capacity start l) {r : R} (hr : Q r) {op : Op R V}
    (hop : KeepsAttached Q op) : Following P Q capacity start (step capacity l op) := by
  refine ⟨h.sound.step op, ?_, ?_⟩
  · intro r hr
    cases op with
    | append value => exact h.attached r hr
    | attach reader =>
      simp only [CursorLog.step]
      split
      · by_cases hsame : r = reader
        · rw [hsame, moveCursor_self]
          exact Option.some_ne_none _
        · rw [moveCursor_ne l _ hsame]
          exact h.attached r hr
      · exact h.attached r hr
    | read reader =>
      rcases read_cases capacity l reader with ⟨heq, _⟩ | ⟨c, value, hc, hv, heq⟩
      · rw [heq]
        exact h.attached r hr
      · rw [heq]
        by_cases hsame : r = reader
        · rw [hsame, Log.serve, moveCursor_self]
          exact Option.some_ne_none _
        · rw [Log.serve, moveCursor_ne l _ hsame]
          exact h.attached r hr
    | detach reader =>
      have hne : r ≠ reader := by
        rintro rfl
        exact hop hr
      rw [CursorLog.step, moveCursor_ne l _ hne]
      exact h.attached r hr
  · cases op with
    | append value => exact h.upToDate.append h.sound hr (h.attached r hr) value
    | attach reader =>
      simp only [CursorLog.step]
      split
      · rename_i hnone
        exact h.upToDate.moveCursor (fun hreader => h.attached reader hreader hnone) _
      · exact h.upToDate
    | read reader =>
      rcases read_cases capacity l reader with ⟨heq, _⟩ | ⟨c, value, hc, hv, heq⟩
      · rw [heq]
        exact h.upToDate
      · rw [heq]
        exact h.upToDate.serve hc hv
    | detach reader => exact h.upToDate.moveCursor hop none

theorem Following.run {r : R} (hr : Q r) (ops : List (Op R V))
    (hops : ∀ op ∈ ops, KeepsAttached Q op) (h : Following P Q capacity start l) :
    Following P Q capacity start (Transition.run (CursorLog.step capacity) l ops) := by
  induction ops generalizing l with
  | nil => exact h
  | cons op ops ih =>
    obtain ⟨hop, hops⟩ := List.forall_mem_cons.mp hops
    exact ih hops (h.step hr hop)

end Steps

end CursorLog
