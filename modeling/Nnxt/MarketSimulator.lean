import Mathlib.Algebra.Order.Field.Rat
import Mathlib.Tactic.Linarith
import Nnxt.TimerSchedule
import Nnxt.RingQueue

/-!
# The simulated market

A gateway that makes up an order book for every instrument subscribed, one after the
other, and writes them into one ring. No instrument is subscribed twice, so a
broadcast holds one book of each.
-/

namespace Nnxt

set_option autoImplicit false

open FixedWidth

theorem nodup_swapRemove {α : Type} {xs : List α} (h : xs.Nodup) (index : Nat) :
    (swapRemove xs index).Nodup := by
  by_cases hindex : index < xs.length
  · exact ((swapRemove_perm hindex).nodup_iff).mpr (h.sublist (List.eraseIdx_sublist _ _))
  · unfold swapRemove
    split
    · exact h
    · rw [List.set_eq_of_length_le (Nat.le_of_not_lt hindex)]
      exact h.sublist (List.dropLast_sublist _)

structure SubscriptionManager where
  instruments : List InstrumentId
  nodup : instruments.Nodup

namespace SubscriptionManager

def new : SubscriptionManager := ⟨[], .nil⟩

def isSubscribed (m : SubscriptionManager) (instrumentId : InstrumentId) : Bool :=
  m.instruments.any fun id => id = instrumentId

theorem isSubscribed_iff {m : SubscriptionManager} {instrumentId : InstrumentId} :
    m.isSubscribed instrumentId = true ↔ instrumentId ∈ m.instruments := by
  simp [isSubscribed]

theorem nodup_concat (m : SubscriptionManager) {instrumentId : InstrumentId}
    (h : ¬m.isSubscribed instrumentId) : (m.instruments ++ [instrumentId]).Nodup := by
  rw [isSubscribed_iff] at h
  exact m.nodup.append (List.nodup_singleton _) (List.disjoint_singleton.mpr h)

/-- The flag tells whether anything has changed. -/
def subscribe (m : SubscriptionManager) (instrumentId : InstrumentId) :
    SubscriptionManager × Bool :=
  if h : m.isSubscribed instrumentId then (m, false)
  else (⟨m.instruments ++ [instrumentId], m.nodup_concat h⟩, true)

def unsubscribe (m : SubscriptionManager) (instrumentId : InstrumentId) :
    SubscriptionManager × Bool :=
  match m.instruments.findIdx? fun id => id = instrumentId with
  | some index => (⟨swapRemove m.instruments index, nodup_swapRemove m.nodup index⟩, true)
  | none => (m, false)

section Membership
variable (m : SubscriptionManager) (instrumentId other : InstrumentId)

theorem mem_subscribe : other ∈ (m.subscribe instrumentId).1.instruments ↔
    other = instrumentId ∨ other ∈ m.instruments := by
  unfold subscribe
  split
  · rename_i h
    rw [isSubscribed_iff] at h
    constructor
    · exact Or.inr
    · rintro (rfl | hmem)
      · exact h
      · exact hmem
  · simp only [List.mem_append, List.mem_singleton]
    exact or_comm

theorem mem_unsubscribe : other ∈ (m.unsubscribe instrumentId).1.instruments ↔
    other ≠ instrumentId ∧ other ∈ m.instruments := by
  unfold unsubscribe
  split
  · rename_i index hfound
    obtain ⟨hlt, hentry, -⟩ := List.findIdx?_eq_some_iff_getElem.mp hfound
    rw [decide_eq_true_eq] at hentry
    have hrest := List.getElem_cons_eraseIdx_perm hlt
    rw [hentry] at hrest
    obtain ⟨hgone, -⟩ := List.nodup_cons.mp (hrest.nodup_iff.mpr m.nodup)
    rw [(swapRemove_perm hlt).mem_iff, ← hrest.mem_iff, List.mem_cons]
    constructor
    · intro hmem
      refine ⟨?_, .inr hmem⟩
      rintro rfl
      exact hgone hmem
    · rintro ⟨hne, heq | hmem⟩
      · exact absurd heq hne
      · exact hmem
  · rename_i hnone
    rw [List.findIdx?_eq_none_iff] at hnone
    have habsent : ∀ id ∈ m.instruments, id ≠ instrumentId := by simpa using hnone
    exact ⟨fun hmem => ⟨habsent other hmem, hmem⟩, And.right⟩

end Membership

end SubscriptionManager

structure SimulatedSource where
  state : UInt64
  deriving DecidableEq, Repr

namespace SimulatedSource

def nextU64 (s : SimulatedSource) (min span : UInt64) : SimulatedSource × UInt64 :=
  let state := s.state * 6364136223846793005 + 1
  ({ s with state := state }, min + state % span)

def nextPrice (s : SimulatedSource) (min span : Price) : SimulatedSource × Price :=
  let value := s.nextU64 0 10000
  (value.1, min + (value.2.toNat : Price) / 10000 * span)

def setLevel (book : OrderBook) (level : Nat) (bidPrice askPrice : Price)
    (bidVolume askVolume : UInt64) : OrderBook :=
  { book with
    bidPrice := book.bidPrice.setIfInBounds level bidPrice
    askPrice := book.askPrice.setIfInBounds level askPrice
    bidVolume := book.bidVolume.setIfInBounds level bidVolume
    askVolume := book.askVolume.setIfInBounds level askVolume }

/-- One pass of the loop over the levels. -/
def fillLevel (basePrice : Price) (drawn : SimulatedSource × OrderBook) (level : Nat) :
    SimulatedSource × OrderBook :=
  let offset : Price := 0.2 * level
  let bidVolume := drawn.1.nextU64 10 900
  let askVolume := bidVolume.1.nextU64 10 900
  (askVolume.1,
   setLevel drawn.2 level (basePrice - offset) (basePrice + offset) bidVolume.2 askVolume.2)

/-- The book before any level is filled in. -/
def emptyBook (instrumentId : InstrumentId) (basePrice : Price) (timestamp : UInt64) :
    OrderBook where
  instrumentId := instrumentId
  bidPrice := Vector.replicate _ 0
  bidVolume := Vector.replicate _ 0
  askPrice := Vector.replicate _ 0
  askVolume := Vector.replicate _ 0
  lastPrice := basePrice
  volume := 0
  turnover := 0
  upperLimitPrice := basePrice * 1.1
  lowerLimitPrice := basePrice * 0.9
  preClosePrice := basePrice * 0.98
  tradeCount := 0
  timestamp := timestamp

def setTotals (book : OrderBook) (volume : UInt64) (turnover : Price) (tradeCount : UInt64) :
    OrderBook :=
  { book with volume := volume, turnover := turnover, tradeCount := tradeCount }

def generate (s : SimulatedSource) (instrumentId : InstrumentId) (timestamp : UInt64) :
    SimulatedSource × OrderBook :=
  let basePrice := s.nextPrice 100 2
  let filled := (List.range orderBookDepth).foldl (fillLevel basePrice.2)
    (basePrice.1, emptyBook instrumentId basePrice.2 timestamp)
  let volume := filled.1.nextU64 100 5000
  let tradeCount := volume.1.nextU64 1 1000
  (tradeCount.1,
   setTotals filled.2 volume.2 (basePrice.2 * volume.2.toNat) tradeCount.2)

end SimulatedSource

def OrderBook.withTimestamp (book : OrderBook) (timestamp : UInt64) : OrderBook :=
  { book with timestamp := timestamp }

structure LatencySnapshot where
  count : UInt64
  avgNs : UInt64
  maxNs : UInt64
  lastNs : UInt64
  deriving DecidableEq, Repr

structure LatencyStats where
  count : UInt64
  totalNs : BitVec 128
  maxNs : UInt64
  lastNs : UInt64
  deriving DecidableEq, Repr

namespace LatencyStats

protected def default : LatencyStats := ⟨0, 0, 0, 0⟩

def record (s : LatencyStats) (latencyNs : UInt64) : LatencyStats where
  count := s.count + 1
  totalNs := s.totalNs + BitVec.ofNat 128 latencyNs.toNat
  lastNs := latencyNs
  maxNs := if s.maxNs < latencyNs then latencyNs else s.maxNs

def snapshot (s : LatencyStats) : LatencySnapshot where
  count := s.count
  avgNs := if s.count = 0 then 0 else UInt64.ofNat (s.totalNs.toNat / s.count.toNat)
  maxNs := s.maxNs
  lastNs := s.lastNs

end LatencyStats

inductive GatewayError where
  | masterConnect
  | masterProtocol (message : String)
  deriving DecidableEq, Repr

/-- `ring` is the ring of the writer with everyone who reads it. -/
structure MarketSimulator where
  ring : RingSystem OrderBook
  subscriptions : SubscriptionManager
  source : SimulatedSource
  stats : LatencyStats
  heartbeatIntervalNs : UInt64
  lastHeartbeatNs : UInt64
  hasMaster : Bool

/-- What the clocks show around one write. -/
structure WriteTimes where
  startNs : UInt64
  timestampNs : UInt64
  endNs : UInt64
  deriving DecidableEq, Repr

namespace MarketSimulator

def subscribe (g : MarketSimulator) (instrumentId : InstrumentId) : MarketSimulator :=
  { g with subscriptions := (g.subscriptions.subscribe instrumentId).1 }

def unsubscribe (g : MarketSimulator) (instrumentId : InstrumentId) : MarketSimulator :=
  { g with subscriptions := (g.subscriptions.unsubscribe instrumentId).1 }

/-- `answer` is what becomes of the request, if one is sent. -/
def maybeSendHeartbeat (g : MarketSimulator) (nowNs : UInt64) (answer : Except GatewayError Unit) :
    MarketSimulator × Except GatewayError Unit :=
  if g.hasMaster = false then (g, .ok ())
  else if saturatingSub nowNs g.lastHeartbeatNs < g.heartbeatIntervalNs then (g, .ok ())
  else
    match answer with
    | .error error => (g, .error error)
    | .ok () => ({ g with lastHeartbeatNs := nowNs }, .ok ())

/-- One pass of the loop over the subscriptions. -/
def broadcastBook (g : MarketSimulator) (instrumentId : InstrumentId) (times : WriteTimes) :
    MarketSimulator :=
  let book := g.source.generate instrumentId 0
  { g with
    source := book.1
    ring := g.ring.step (.write (book.2.withTimestamp times.timestampNs))
    stats := g.stats.record (saturatingSub times.endNs times.startNs) }

/-- The clocks are read as the loop goes. -/
def broadcastEach (g : MarketSimulator) (times : Nat → WriteTimes) :
    List InstrumentId → MarketSimulator
  | [] => g
  | instrumentId :: rest =>
    (g.broadcastBook instrumentId (times 0)).broadcastEach (fun n => times (n + 1)) rest

/-- A heartbeat that fails ends the broadcast before it has begun. -/
def broadcastOnce (g : MarketSimulator) (nowNs : UInt64) (answer : Except GatewayError Unit)
    (times : Nat → WriteTimes) : MarketSimulator × Except GatewayError Unit :=
  match g.maybeSendHeartbeat nowNs answer with
  | (g, .error error) => (g, .error error)
  | (g, .ok ()) => (g.broadcastEach times g.subscriptions.instruments, .ok ())

end MarketSimulator

/-- Volumes lie within the bounds they are drawn from, and the prices step away from the last
price on both sides. -/
structure LevelOk (book : OrderBook) (level : Nat) (h : level < orderBookDepth) : Prop where
  bidVolume : 10 ≤ book.bidVolume[level].toNat ∧ book.bidVolume[level].toNat < 910
  askVolume : 10 ≤ book.askVolume[level].toNat ∧ book.askVolume[level].toNat < 910
  bidPrice : book.bidPrice[level] = book.lastPrice - 0.2 * level
  askPrice : book.askPrice[level] = book.lastPrice + 0.2 * level

/-- The best levels come first, and no bid is above an ask; the best two are both at the last
price. -/
structure WellFormed (book : OrderBook) : Prop where
  levels : ∀ level h, LevelOk book level h
  bids : ∀ better level (_ : better < level) (h : level < orderBookDepth),
    book.bidPrice[level] < book.bidPrice[better]
  asks : ∀ better level (_ : better < level) (h : level < orderBookDepth),
    book.askPrice[better] < book.askPrice[level]
  uncrossed : ∀ level level' (h : level < orderBookDepth) (h' : level' < orderBookDepth),
    book.bidPrice[level] ≤ book.askPrice[level']
  volume : 100 ≤ book.volume.toNat ∧ book.volume.toNat < 5100
  tradeCount : 1 ≤ book.tradeCount.toNat ∧ book.tradeCount.toNat < 1001
  lastPrice : 100 ≤ book.lastPrice ∧ book.lastPrice < 102

/-- The order of the sides comes from the steps of their prices. -/
theorem wellFormed_of_levels {book : OrderBook} (hlevels : ∀ level h, LevelOk book level h)
    (hvolume : 100 ≤ book.volume.toNat ∧ book.volume.toNat < 5100)
    (hcount : 1 ≤ book.tradeCount.toNat ∧ book.tradeCount.toNat < 1001)
    (hprice : 100 ≤ book.lastPrice ∧ book.lastPrice < 102) : WellFormed book where
  levels := hlevels
  bids := by
    intro better level hlt h
    have hsteps : (better : Price) < level := Nat.cast_lt.mpr hlt
    rw [(hlevels level h).bidPrice, (hlevels better (Nat.lt_trans hlt h)).bidPrice]
    linarith
  asks := by
    intro better level hlt h
    have hsteps : (better : Price) < level := Nat.cast_lt.mpr hlt
    rw [(hlevels level h).askPrice, (hlevels better (Nat.lt_trans hlt h)).askPrice]
    linarith
  uncrossed := by
    intro level level' h h'
    have hbelow : (0 : Price) ≤ level := Nat.cast_nonneg level
    have habove : (0 : Price) ≤ level' := Nat.cast_nonneg level'
    rw [(hlevels level h).bidPrice, (hlevels level' h').askPrice]
    linarith
  volume := hvolume
  tradeCount := hcount
  lastPrice := hprice

theorem WellFormed.withTimestamp {book : OrderBook} (h : WellFormed book) (timestamp : UInt64) :
    WellFormed (book.withTimestamp timestamp) := by
  refine wellFormed_of_levels (fun level hlevel => ?_) h.volume h.tradeCount h.lastPrice
  have hok := h.levels level hlevel
  exact ⟨hok.bidVolume, hok.askVolume, hok.bidPrice, hok.askPrice⟩

theorem instrumentId_withTimestamp (book : OrderBook) (timestamp : UInt64) :
    (book.withTimestamp timestamp).instrumentId = book.instrumentId := rfl

namespace SimulatedSource

theorem nextU64_bounds (s : SimulatedSource) {min span : UInt64} {lo width : Nat}
    (hmin : min.toNat = lo) (hspan : span.toNat = width) (hpos : 0 < width)
    (hfits : lo + width ≤ 2 ^ 64) :
    lo ≤ (s.nextU64 min span).2.toNat ∧ (s.nextU64 min span).2.toNat < lo + width := by
  have hrest := Nat.mod_lt (s.state * 6364136223846793005 + 1).toNat hpos
  simp only [nextU64, UInt64.toNat_add, UInt64.toNat_mod, hmin, hspan] at hrest ⊢
  omega

/-- A volume of a level. -/
theorem volume_bounds (s : SimulatedSource) :
    10 ≤ (s.nextU64 10 900).2.toNat ∧ (s.nextU64 10 900).2.toNat < 910 :=
  @nextU64_bounds s 10 900 10 900 rfl rfl (by decide) (by decide)

theorem nextPrice_bounds (s : SimulatedSource) :
    100 ≤ (s.nextPrice 100 2).2 ∧ (s.nextPrice 100 2).2 < 102 := by
  obtain ⟨-, hlt⟩ := @nextU64_bounds s 0 10000 0 10000 rfl rfl (by decide) (by decide)
  simp only [nextPrice]
  generalize (s.nextU64 0 10000).2 = value at hlt ⊢
  have hnonneg : (0 : Price) ≤ value.toNat := Nat.cast_nonneg _
  have hsmall : (value.toNat : Price) < 10000 := by exact_mod_cast hlt
  constructor <;> linarith

section Levels
variable {basePrice : Price} {drawn : SimulatedSource × OrderBook}

/-- The levels before the `n`-th are filled in, around the price the book was begun with. -/
structure Filled (basePrice : Price) (instrumentId : InstrumentId) (n : Nat) (book : OrderBook) :
    Prop where
  instrumentId : book.instrumentId = instrumentId
  lastPrice : book.lastPrice = basePrice
  levels : ∀ level h, level < n → LevelOk book level h

theorem Filled.setLevel {instrumentId : InstrumentId} {n : Nat} {book : OrderBook}
    (h : Filled basePrice instrumentId n book) {bidPrice askPrice : Price}
    {bidVolume askVolume : UInt64} (hbid : 10 ≤ bidVolume.toNat ∧ bidVolume.toNat < 910)
    (hask : 10 ≤ askVolume.toNat ∧ askVolume.toNat < 910)
    (hbelow : bidPrice = basePrice - 0.2 * (n : Price))
    (habove : askPrice = basePrice + 0.2 * (n : Price)) :
    Filled basePrice instrumentId (n + 1)
      (setLevel book n bidPrice askPrice bidVolume askVolume) := by
  have hlast : (SimulatedSource.setLevel book n bidPrice askPrice bidVolume askVolume).lastPrice =
      basePrice := h.lastPrice
  refine ⟨h.instrumentId, hlast, fun level hlevel hlt => ?_⟩
  by_cases hn : level = n
  · subst hn
    refine ⟨?_, ?_, ?_, ?_⟩
    · simp only [SimulatedSource.setLevel, Vector.getElem_setIfInBounds_self]
      exact hbid
    · simp only [SimulatedSource.setLevel, Vector.getElem_setIfInBounds_self]
      exact hask
    · rw [hlast]
      simp only [SimulatedSource.setLevel, Vector.getElem_setIfInBounds_self]
      exact hbelow
    · rw [hlast]
      simp only [SimulatedSource.setLevel, Vector.getElem_setIfInBounds_self]
      exact habove
  · have hold := h.levels level hlevel (by omega)
    have hne : n ≠ level := fun heq => hn heq.symm
    refine ⟨?_, ?_, ?_, ?_⟩
    · simp only [SimulatedSource.setLevel, Vector.getElem_setIfInBounds_ne hlevel hne]
      exact hold.bidVolume
    · simp only [SimulatedSource.setLevel, Vector.getElem_setIfInBounds_ne hlevel hne]
      exact hold.askVolume
    · simp only [SimulatedSource.setLevel, Vector.getElem_setIfInBounds_ne hlevel hne]
      exact hold.bidPrice
    · simp only [SimulatedSource.setLevel, Vector.getElem_setIfInBounds_ne hlevel hne]
      exact hold.askPrice

theorem Filled.fillLevel {instrumentId : InstrumentId} {n : Nat}
    (h : Filled basePrice instrumentId n drawn.2) :
    Filled basePrice instrumentId (n + 1) (fillLevel basePrice drawn n).2 :=
  h.setLevel (volume_bounds _) (volume_bounds _) rfl rfl

theorem Filled.range {instrumentId : InstrumentId}
    (h : Filled basePrice instrumentId 0 drawn.2) (n : Nat) :
    Filled basePrice instrumentId n
      ((List.range n).foldl (SimulatedSource.fillLevel basePrice) drawn).2 := by
  induction n with
  | zero => exact h
  | succ n ih =>
    rw [List.range_succ, List.foldl_append]
    exact ih.fillLevel

end Levels

theorem Filled.setTotals {basePrice : Price} {instrumentId : InstrumentId} {book : OrderBook}
    (h : Filled basePrice instrumentId orderBookDepth book) {volume tradeCount : UInt64}
    (turnover : Price) (hvolume : 100 ≤ volume.toNat ∧ volume.toNat < 5100)
    (hcount : 1 ≤ tradeCount.toNat ∧ tradeCount.toNat < 1001)
    (hprice : 100 ≤ basePrice ∧ basePrice < 102) :
    (setTotals book volume turnover tradeCount).instrumentId = instrumentId ∧
      WellFormed (setTotals book volume turnover tradeCount) := by
  have hlast : (SimulatedSource.setTotals book volume turnover tradeCount).lastPrice = basePrice :=
    h.lastPrice
  refine ⟨h.instrumentId,
    wellFormed_of_levels (fun level hlevel => ?_) hvolume hcount (by rwa [hlast])⟩
  have hold := h.levels level hlevel hlevel
  exact ⟨hold.bidVolume, hold.askVolume, hold.bidPrice, hold.askPrice⟩

theorem generate_wellFormed (s : SimulatedSource) (instrumentId : InstrumentId)
    (timestamp : UInt64) : (s.generate instrumentId timestamp).2.instrumentId = instrumentId ∧
      WellFormed (s.generate instrumentId timestamp).2 := by
  have hfilled := @Filled.range (s.nextPrice 100 2).2
    ((s.nextPrice 100 2).1, emptyBook instrumentId (s.nextPrice 100 2).2 timestamp) instrumentId
    ⟨rfl, rfl, fun _ _ hlt => absurd hlt (Nat.not_lt_zero _)⟩ orderBookDepth
  refine hfilled.setTotals _ ?_ ?_ s.nextPrice_bounds
  · exact @nextU64_bounds _ 100 5000 100 5000 rfl rfl (by decide) (by decide)
  · exact @nextU64_bounds _ 1 1000 1 1000 rfl rfl (by decide) (by decide)

end SimulatedSource

namespace MarketSimulator

/-- What a broadcast to the instruments writes and counts. -/
structure Broadcast (ids : List InstrumentId) (g after : MarketSimulator) (books : List OrderBook) :
    Prop where
  ring : after.ring = g.ring.writes books
  instruments : books.map (·.instrumentId) = ids
  wellFormed : ∀ book ∈ books, WellFormed book
  subscriptions : after.subscriptions = g.subscriptions
  count : after.stats.count = g.stats.count + UInt64.ofNat books.length

theorem exists_broadcastEach (ids : List InstrumentId) (g : MarketSimulator)
    (times : Nat → WriteTimes) : ∃ books, Broadcast ids g (g.broadcastEach times ids) books := by
  induction ids generalizing g times with
  | nil =>
    refine ⟨[], rfl, rfl, List.forall_mem_nil _, rfl, ?_⟩
    exact (UInt64.add_zero _).symm
  | cons id ids ih =>
    obtain ⟨books, h⟩ := ih (g.broadcastBook id (times 0)) fun n => times (n + 1)
    obtain ⟨hid, hbook⟩ := g.source.generate_wellFormed id 0
    refine ⟨(g.source.generate id 0).2.withTimestamp (times 0).timestampNs :: books,
      h.ring, ?_, ?_, h.subscriptions, ?_⟩
    · rw [List.map_cons, h.instruments, instrumentId_withTimestamp, hid]
    · exact List.forall_mem_cons.mpr ⟨hbook.withTimestamp _, h.wellFormed⟩
    · rw [broadcastEach, h.count, List.length_cons, broadcastBook, LatencyStats.record,
        UInt64.add_assoc, UInt64.ofNat_add, UInt64.add_comm 1]
      rfl

/-- A broadcast writes one book of every instrument subscribed, or none if its heartbeat fails. -/
theorem broadcastOnce_cases (g : MarketSimulator) (nowNs : UInt64)
    (answer : Except GatewayError Unit) (times : Nat → WriteTimes) :
    (∃ error, g.broadcastOnce nowNs answer times = (g, .error error)) ∨
      (g.broadcastOnce nowNs answer times).2 = .ok () ∧
        ∃ books, Broadcast g.subscriptions.instruments g (g.broadcastOnce nowNs answer times).1
          books := by
  have hsent : ∀ nowNs, ∃ books, Broadcast g.subscriptions.instruments g
      ({ g with lastHeartbeatNs := nowNs }.broadcastEach times g.subscriptions.instruments)
        books := by
    intro nowNs
    obtain ⟨books, h⟩ := exists_broadcastEach g.subscriptions.instruments
      { g with lastHeartbeatNs := nowNs } times
    exact ⟨books, h.ring, h.instruments, h.wellFormed, h.subscriptions, h.count⟩
  unfold broadcastOnce maybeSendHeartbeat
  split
  · rename_i hbeat
    split at hbeat
    · cases hbeat
    · split at hbeat
      · cases hbeat
      · cases answer with
        | error error =>
          cases hbeat
          exact .inl ⟨_, rfl⟩
        | ok _ => cases hbeat
  · rename_i hbeat
    right
    refine ⟨rfl, ?_⟩
    split at hbeat
    · cases hbeat
      exact exists_broadcastEach _ _ times
    · split at hbeat
      · cases hbeat
        exact exists_broadcastEach _ _ times
      · cases answer with
        | error error => cases hbeat
        | ok _ =>
          cases hbeat
          exact hsent nowNs

end MarketSimulator

end Nnxt
