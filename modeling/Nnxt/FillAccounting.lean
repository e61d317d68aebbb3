import Mathlib.Data.List.Forall2
import Nnxt.TradeSimulator
import Nnxt.RunnerState
import Nnxt.Foundation.Transition

/-!
# Fill accounting under reordered delivery

One order, filled in any number of parts, its reports arriving over an order
queue and a trade queue in any interleaving. An order event sets the filled
quantity, a trade event adds to it; `Progress` follows the two counts that
decide whether a part is counted twice.
-/

namespace Nnxt.FillAccounting

set_option autoImplicit false

open HashMap OrderManager FixedWidth
open RunnerState (record)

def step (s : RunnerState) : TradeGatewayEvent → RunnerState
  | .order event => (s.applyOrderEvent event).1
  | .trade event => (s.applyTradeEvent event).1

/-- One order event for each fill, with the cumulative fill and the matching
remaining quantity; `done` is the fill before the first of them. -/
def OrderReports (orderId quantity : UInt64) : Nat → List UInt64 → List OrderEvent → Prop
  | _, [], [] => True
  | done, fill :: fills, event :: events =>
    event.orderId = orderId ∧
    event.filledQuantity.toNat = done + fill.toNat ∧
    event.filledQuantity.toNat + event.remainingQuantity.toNat = quantity.toNat ∧
    event.status = (if fills = [] then .filled else .partialFilled) ∧
    OrderReports orderId quantity (done + fill.toNat) fills events
  | _, _, _ => False

def Acknowledges (orderId quantity : UInt64) (event : OrderEvent) : Prop :=
  event.orderId = orderId ∧ event.status = .active ∧ event.filledQuantity = 0 ∧
    event.remainingQuantity = quantity

/-- What a gateway publishes for an order filled in the parts `fills`. -/
structure Published (orderId quantity : UInt64) (fills : List UInt64)
    (orderQueue : List OrderEvent) (tradeQueue : List TradeEvent) : Prop where
  filled : fills ≠ []
  split : (fills.map UInt64.toNat).sum = quantity.toNat
  orders : OrderReports orderId quantity 0 fills orderQueue ∨
    ∃ ack reports, orderQueue = ack :: reports ∧ Acknowledges orderId quantity ack ∧
      OrderReports orderId quantity 0 fills reports
  trades : List.Forall₂ (fun fill event => event.orderId = orderId ∧ event.quantity = fill)
    fills tradeQueue
  tradeIds : (tradeQueue.map (·.tradeId)).Nodup

/-- A tracked order before any of its reports has arrived. -/
structure Awaiting (s : RunnerState) (orderId quantity : UInt64) (tradeQueue : List TradeEvent) :
    Prop where
  tracked : ∃ st, record s orderId = some st ∧ st.order.quantity = quantity ∧
    st.order.filledQuantity = 0
  unreported : s.orderManager.seenFor orderId = ∅
  fresh : ∀ event ∈ tradeQueue, event.tradeId ∉ s.ledger.fillLedger.seen

def FilledWithin (orderId : UInt64) (s : RunnerState) : Prop :=
  ∃ st, record s orderId = some st ∧ st.order.filledQuantity ≤ st.order.quantity

def FullyFilled (orderId quantity : UInt64) (s : RunnerState) : Prop :=
  ∃ st, record s orderId = some st ∧ st.order.filledQuantity = quantity ∧
    st.order.status = .filled

/-- The cumulative fill in the last order event delivered, the total of the
trade events delivered, and that total when the order event was delivered. -/
structure Progress where
  reported : Nat
  traded : Nat
  tradedThen : Nat
  last : Option OrderEventKey

def Progress.step (p : Progress) : TradeGatewayEvent → Progress
  | .order event =>
    -- the report of an empty fill repeats the one before it
    if p.last = some event.key then p
    else ⟨event.filledQuantity.toNat, p.traded, p.traded, some event.key⟩
  | .trade event => { p with traded := p.traded + event.quantity.toNat }

def Progress.start : Progress := ⟨0, 0, 0, none⟩

def progress (delivered : List TradeGatewayEvent) : Progress :=
  delivered.foldl Progress.step .start

/-- At every point of the delivery the part of the fill that the last order
event reported ahead of the trade queue, `reported - tradedThen`, fits beside
everything traded so far. The largest quantity is excepted: there the sum
saturates at the right value. -/
def NothingCountedTwice (quantity : UInt64) (deliveries : List TradeGatewayEvent) : Prop :=
  quantity.toNat = 2 ^ 64 - 1 ∨
    ∀ delivered, delivered <+: deliveries →
      (progress delivered).reported + (progress delivered).traded ≤
        quantity.toNat + (progress delivered).tradedThen

/-- What has been counted, in exact integers. -/
def Progress.counted (p : Progress) : Nat := p.reported + p.traded - p.tradedThen

section Reports
variable {orderId quantity : UInt64}

/-- A report that comes again comes at once. -/
def RepeatsAtOnce : List OrderEvent → Prop
  | [] => True
  | event :: events =>
    (event.key ∈ events.map OrderEvent.key → events.head?.map OrderEvent.key = some event.key) ∧
      RepeatsAtOnce events

structure Reports (orderId quantity : UInt64) (events : List OrderEvent) : Prop where
  own : ∀ event ∈ events, event.orderId = orderId
  whole : ∀ event ∈ events,
    event.filledQuantity.toNat + event.remainingQuantity.toNat = quantity.toNat
  repeats : RepeatsAtOnce events

theorem Reports.tail {event : OrderEvent} {events : List OrderEvent}
    (h : Reports orderId quantity (event :: events)) : Reports orderId quantity events where
  own := fun e he => h.own e (List.mem_cons_of_mem event he)
  whole := fun e he => h.whole e (List.mem_cons_of_mem event he)
  repeats := h.repeats.2

theorem OrderReports.mem {done : Nat} {fills : List UInt64} {events : List OrderEvent}
    (h : OrderReports orderId quantity done fills events) :
    ∀ event ∈ events, event.orderId = orderId ∧
      event.filledQuantity.toNat + event.remainingQuantity.toNat = quantity.toNat ∧
      event.status ≠ .active ∧ done ≤ event.filledQuantity.toNat := by
  induction events generalizing done fills with
  | nil => simp
  | cons e es ih =>
    cases fills with
    | nil => exact False.elim h
    | cons fill fills =>
      obtain ⟨hid, hfill, hwhole, hstatus, hrest⟩ := h
      intro event hevent
      rcases List.mem_cons.mp hevent with rfl | hevent
      · refine ⟨hid, hwhole, ?_, by omega⟩
        rw [hstatus]
        split <;> decide
      · obtain ⟨h1, h2, h3, h4⟩ := ih hrest event hevent
        exact ⟨h1, h2, h3, by omega⟩

/-- Between a report and its repetition no fill is reported, so the next report
is the repetition already. -/
theorem OrderReports.next {done : Nat} {fills : List UInt64} {e : OrderEvent}
    {events : List OrderEvent} (h : OrderReports orderId quantity done fills events)
    (hdone : e.filledQuantity.toNat = done)
    (hwhole : e.filledQuantity.toNat + e.remainingQuantity.toNat = quantity.toNat)
    (hstatus : e.status = if fills = [] then .filled else .partialFilled)
    (hmem : e.key ∈ events.map OrderEvent.key) :
    events.head?.map OrderEvent.key = some e.key := by
  cases events with
  | nil => cases hmem
  | cons f fs =>
    cases fills with
    | nil => exact False.elim h
    | cons fill fills =>
      obtain ⟨_, hfill, hwhole', hstatus', hrest⟩ := h
      rw [if_neg (List.cons_ne_nil _ _)] at hstatus
      rcases List.mem_cons.mp hmem with heq | hlater
      · rw [heq]
        rfl
      · obtain ⟨g, hg, hkey⟩ := List.mem_map.mp hlater
        have hsame : g.filledQuantity = e.filledQuantity :=
          congrArg OrderEventKey.filledQuantity hkey
        have hgrow := (hrest.mem g hg).2.2.2
        rw [hsame] at hgrow
        have hf : f.filledQuantity = e.filledQuantity := UInt64.toNat_inj.mp (by omega)
        have hr : f.remainingQuantity = e.remainingQuantity := by
          rw [hf] at hwhole'
          exact UInt64.toNat_inj.mp (by omega)
        have hmore : fills ≠ [] := by
          rintro rfl
          cases fs with
          | nil => cases hg
          | cons => exact hrest
        rw [if_neg hmore] at hstatus'
        rw [List.head?_cons, Option.map_some, OrderEvent.key, OrderEvent.key, hf, hr, hstatus,
          hstatus']

theorem OrderReports.repeats {done : Nat} {fills : List UInt64} {events : List OrderEvent}
    (h : OrderReports orderId quantity done fills events) : RepeatsAtOnce events := by
  induction events generalizing done fills with
  | nil => trivial
  | cons e es ih =>
    cases fills with
    | nil => exact False.elim h
    | cons fill fills =>
      obtain ⟨_, hfill, hwhole, hstatus, hrest⟩ := h
      exact ⟨hrest.next hfill hwhole hstatus, ih hrest⟩

theorem OrderReports.last {done : Nat} {fills : List UInt64} {events : List OrderEvent}
    (h : OrderReports orderId quantity done fills events) (hne : fills ≠ []) :
    ∃ before final, events = before ++ [final] ∧ final.status = .filled ∧
      final.filledQuantity.toNat = done + (fills.map UInt64.toNat).sum := by
  induction events generalizing done fills with
  | nil =>
    cases fills with
    | nil => exact absurd rfl hne
    | cons => exact False.elim h
  | cons e es ih =>
    cases fills with
    | nil => exact False.elim h
    | cons fill fills =>
      obtain ⟨_, hfill, _, hstatus, hrest⟩ := h
      by_cases hlast : fills = []
      · subst hlast
        cases es with
        | nil => exact ⟨[], e, rfl, by simpa using hstatus, by simpa using hfill⟩
        | cons => exact False.elim hrest
      · obtain ⟨before, final, rfl, hs, hf⟩ := ih hrest hlast
        refine ⟨e :: before, final, rfl, hs, ?_⟩
        rw [hf, List.map_cons, List.sum_cons]
        omega

variable {fills : List UInt64} {orderQueue : List OrderEvent} {tradeQueue : List TradeEvent}

theorem Published.reports (h : Published orderId quantity fills orderQueue tradeQueue) :
    Reports orderId quantity orderQueue := by
  rcases h.orders with hr | ⟨ack, reports, rfl, ⟨hid, hstatus, hzero, hwhole⟩, hr⟩
  · exact ⟨fun e he => (hr.mem e he).1, fun e he => (hr.mem e he).2.1, hr.repeats⟩
  · refine ⟨?_, ?_, ?_, hr.repeats⟩
    · intro e he
      rcases List.mem_cons.mp he with rfl | he
      · exact hid
      · exact (hr.mem e he).1
    · intro e he
      rcases List.mem_cons.mp he with rfl | he
      · rw [hzero, hwhole]
        exact Nat.zero_add _
      · exact (hr.mem e he).2.1
    · intro hin
      obtain ⟨e, he, hkey⟩ := List.mem_map.mp hin
      have hs : e.status = ack.status := congrArg OrderEventKey.status hkey
      exact absurd (hs.trans hstatus) (hr.mem e he).2.2.1

theorem Published.last (h : Published orderId quantity fills orderQueue tradeQueue) :
    ∃ before final, orderQueue = before ++ [final] ∧ final.status = .filled ∧
      final.filledQuantity.toNat = quantity.toNat := by
  have hsum := h.split
  rcases h.orders with hr | ⟨ack, reports, rfl, _, hr⟩
  · obtain ⟨before, final, he, hs, hf⟩ := hr.last h.filled
    exact ⟨before, final, he, hs, by omega⟩
  · obtain ⟨before, final, he, hs, hf⟩ := hr.last h.filled
    exact ⟨ack :: before, final, by rw [he]; rfl, hs, by omega⟩

theorem Published.trade_own (h : Published orderId quantity fills orderQueue tradeQueue) :
    ∀ event ∈ tradeQueue, event.orderId = orderId := by
  intro event hevent
  obtain ⟨i, hi, rfl⟩ := List.getElem_of_mem hevent
  have hlen := h.trades.length_eq
  exact (h.trades.get (by omega) hi).1

end Reports

end Nnxt.FillAccounting
