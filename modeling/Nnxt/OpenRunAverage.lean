import Nnxt.AveragePrice

/-!
# The average price lies within the open run

While no sum leaves the range of `i64`, the average price of a position is a
mixture of the prices since it was last flat or turned.
-/

namespace Nnxt.AveragePrice

set_option autoImplicit false

open Exposure FixedWidth SignedRuns WeightedMean

/-- Quantities from 1 to `i64::MAX`, and running sums that do not saturate. -/
structure Unsaturated (trades : List TradeEvent) : Prop where
  quantity : ∀ event ∈ trades, 0 < event.quantity.toNat ∧ event.quantity.toNat < 2 ^ 63
  sums : ∀ part, part <+: trades → FitsI64 (net signedTrade part)

/-- The trade that turns a position weighs what is left after it. -/
def firstWeight (before : List TradeEvent) (first : TradeEvent) : Price :=
  if net signedTrade before = 0 then first.quantity.toNat
  else (net signedTrade (before ++ [first])).natAbs

/-- The trades of a run as weighted prices. -/
def entries (before : List TradeEvent) : List TradeEvent → List (Price × Price)
  | [] => []
  | first :: rest =>
    (firstWeight before first, first.price) ::
      rest.map fun event => ((event.quantity.toNat : Price), event.price)

/-- What `avg` is to the run that is open. -/
structure RunAverage (before run : List TradeEvent) (avg : Price) : Prop where
  least : ∃ event ∈ run, event.price ≤ avg
  greatest : ∃ event ∈ run, avg ≤ event.price
  mean : Grows signedTrade before run → avg = weightedMean (entries before run)

section Step
variable {trades before run : List TradeEvent} {event : TradeEvent} {avg : Price}

theorem Unsaturated.of_append (h : Unsaturated (trades ++ [event])) : Unsaturated trades where
  quantity := fun event hmem => h.quantity event (List.mem_append_left _ hmem)
  sums := fun part hpart => h.sums part (hpart.trans (List.prefix_append _ _))

theorem Unsaturated.last (h : Unsaturated (trades ++ [event])) :
    0 < event.quantity.toNat ∧ event.quantity.toNat < 2 ^ 63 :=
  h.quantity event (List.mem_append_right _ (List.mem_singleton.mpr rfl))

theorem Unsaturated.delta_toInt (h : Unsaturated (trades ++ [event])) :
    event.delta.toInt = signedTrade event :=
  Exposure.delta_toInt ⟨by omega, by have := h.last.2; omega⟩

theorem natAbs_signedTrade (event : TradeEvent) :
    (signedTrade event).natAbs = event.quantity.toNat := by
  unfold signedTrade
  cases event.side with
  | buy => exact Int.natAbs_natCast _
  | sell => rw [Int.natAbs_neg, Int.natAbs_natCast]

theorem Unsaturated.held_quantity (h : Unsaturated trades) :
    (held trades).quantity.toInt = net signedTrade trades := by
  induction trades using List.reverseRecOn with
  | nil => rfl
  | append_singleton trades event ih =>
    have hsum := h.sums _ (List.prefix_refl _)
    have hdelta := h.delta_toInt
    rw [net_append, net_singleton, ← ih h.of_append, ← hdelta] at hsum ⊢
    rw [held_append]
    exact toInt_saturatingAddI64 hsum

theorem held_avgPrice (trades : List TradeEvent) (event : TradeEvent) :
    (held (trades ++ [event])).avgPrice =
      nextAvgPrice (held trades).quantity (held trades).avgPrice event.delta event.price
        (held (trades ++ [event])).quantity := by
  rw [held_append]
  rfl

theorem Unsaturated.held_next (h : Unsaturated (trades ++ [event])) :
    (held (trades ++ [event])).quantity.toInt =
      (held trades).quantity.toInt + event.delta.toInt := by
  rw [h.held_quantity, h.of_append.held_quantity, h.delta_toInt, net_append, net_singleton]

theorem entries_append (hne : run ≠ []) :
    entries before (run ++ [event]) =
      entries before run ++ [((event.quantity.toNat : Price), event.price)] := by
  cases run with
  | nil => exact absurd rfl hne
  | cons first rest => simp [entries]

/-- What is carried along a run: the weights of a run that only grows are what is held. -/
structure Averaged (before run : List TradeEvent) : Prop where
  openRun : OpenRun signedTrade before run
  average : RunAverage before run (held (before ++ run)).avgPrice
  total : Grows signedTrade before run →
    totalWeight (entries before run) = (net signedTrade (before ++ run)).natAbs

theorem averaged_opened (h : Unsaturated (trades ++ [event]))
    (hopen : net signedTrade (trades ++ [event]) ≠ 0)
    (hsign : (net signedTrade trades).sign ≠ (net signedTrade (trades ++ [event])).sign) :
    Averaged trades [event] := by
  have hdelta : event.delta.toInt ≠ 0 := by
    have hquantity := h.last.1
    rw [h.delta_toInt, ← Int.natAbs_ne_zero, natAbs_signedTrade]
    omega
  have havg : (held (trades ++ [event])).avgPrice = event.price := by
    rw [held_avgPrice]
    apply nextAvgPrice_opened h.held_next hdelta
    · rwa [h.held_quantity]
    · rw [h.held_quantity, h.of_append.held_quantity]
      exact Ne.symm hsign
  have hweight : firstWeight trades event = (net signedTrade (trades ++ [event])).natAbs := by
    unfold firstWeight
    split
    · rename_i hflat
      rw [net_append, hflat, zero_add, net_singleton, natAbs_signedTrade]
    · rfl
  have hpositive : firstWeight trades event ≠ 0 := by
    rwa [hweight, Nat.cast_ne_zero, Int.natAbs_ne_zero]
  have hmem : event ∈ [event] := List.mem_singleton.mpr rfl
  refine ⟨openRun_singleton hopen hsign, ⟨⟨event, hmem, ?_⟩, ⟨event, hmem, ?_⟩, ?_⟩, ?_⟩
  · rw [havg]
  · rw [havg]
  · intro _
    rw [havg]
    exact (weightedMean_singleton hpositive).symm
  · intro _
    exact (totalWeight_singleton _ _).trans hweight

/-- A mixture with one more price stays between the prices. -/
theorem RunAverage.between_mix {w v : Price} (h : RunAverage before run avg) (hw : 0 < w)
    (hv : 0 < v) :
    (∃ e ∈ run ++ [event], e.price ≤ mix avg w event.price v) ∧
    ∃ e ∈ run ++ [event], mix avg w event.price v ≤ e.price := by
  have hlast : event ∈ run ++ [event] := List.mem_append_right _ (List.mem_singleton.mpr rfl)
  obtain ⟨low, hlowMem, hlow⟩ := h.least
  obtain ⟨high, hhighMem, hhigh⟩ := h.greatest
  constructor
  · rcases le_total low.price event.price with hle | hle
    · exact ⟨low, List.mem_append_left _ hlowMem, le_mix hw hv hlow hle⟩
    · exact ⟨event, hlast, le_mix hw hv (hle.trans hlow) le_rfl⟩
  · rcases le_total high.price event.price with hle | hle
    · exact ⟨event, hlast, mix_le hw hv (hhigh.trans hle) le_rfl⟩
    · exact ⟨high, List.mem_append_left _ hhighMem, mix_le hw hv hhigh hle⟩

theorem Averaged.grown (hrun : Averaged before run)
    (h : Unsaturated (before ++ run ++ [event]))
    (hsign : (net signedTrade (before ++ run ++ [event])).sign =
      (net signedTrade (before ++ run)).sign)
    (hmore : (net signedTrade (before ++ run)).natAbs <
      (net signedTrade (before ++ run ++ [event])).natAbs) :
    Averaged before (run ++ [event]) := by
  have hheld := h.of_append.held_quantity
  have havg : (held (before ++ run ++ [event])).avgPrice =
      mix (held (before ++ run)).avgPrice (net signedTrade (before ++ run)).natAbs event.price
        event.quantity.toNat := by
    rw [held_avgPrice, nextAvgPrice_grown h.held_next, hheld, h.delta_toInt, natAbs_signedTrade]
    · rwa [h.held_quantity, hheld]
    · rwa [h.held_quantity, hheld]
  have hheldPos : (0 : Price) < (net signedTrade (before ++ run)).natAbs := by
    rw [Nat.cast_pos, Int.natAbs_pos]
    exact hrun.openRun.isOpen
  have hquantityPos : (0 : Price) < event.quantity.toNat := Nat.cast_pos.mpr h.last.1
  obtain ⟨hleast, hgreatest⟩ := @RunAverage.between_mix _ _ event _ _ _ hrun.average hheldPos
    hquantityPos
  -- the sum moves away from zero by the whole quantity
  have hsum : (net signedTrade (before ++ run)).natAbs + event.quantity.toNat =
      (net signedTrade (before ++ run ++ [event])).natAbs := by
    rw [← natAbs_signedTrade event]
    rw [sign_eq_sign_iff] at hsign
    rw [net_append _ [event], net_singleton] at hsign hmore ⊢
    omega
  have hentries := @entries_append before run event hrun.openRun.ne_nil
  rw [← havg, List.append_assoc] at hleast hgreatest
  refine ⟨hrun.openRun.extend hsign, ⟨hleast, hgreatest, ?_⟩, ?_⟩
  · intro hgrows
    have htotal := hrun.total hgrows.of_append
    rw [← List.append_assoc, havg, hrun.average.mean hgrows.of_append, hentries, ← htotal]
    refine (weightedMean_append ?_).symm
    rw [htotal]
    exact ne_of_gt hheldPos
  · intro hgrows
    rw [hentries, totalWeight_append, hrun.total hgrows.of_append, ← List.append_assoc, ← hsum,
      Nat.cast_add]

theorem held_avgPrice_reduced (h : Unsaturated (trades ++ [event]))
    (hreduces : Reduces (net signedTrade trades) (signedTrade event)) :
    (held (trades ++ [event])).avgPrice = (held trades).avgPrice := by
  obtain ⟨hsign, hless⟩ := hreduces
  have hheld := h.of_append.held_quantity
  have hnext := h.held_quantity
  rw [net_append, net_singleton] at hnext
  rw [held_avgPrice]
  apply nextAvgPrice_reduced h.held_next
  · omega
  · rwa [hnext, hheld]
  · rwa [hnext, hheld]

theorem Averaged.reduced (hrun : Averaged before run)
    (h : Unsaturated (before ++ run ++ [event]))
    (hreduces : Reduces (net signedTrade (before ++ run)) (signedTrade event)) :
    Averaged before (run ++ [event]) := by
  have havg := held_avgPrice_reduced h hreduces
  have hsign := hreduces.1
  obtain ⟨low, hlowMem, hlow⟩ := hrun.average.least
  obtain ⟨high, hhighMem, hhigh⟩ := hrun.average.greatest
  rw [← havg, List.append_assoc] at hlow hhigh
  refine ⟨hrun.openRun.extend ?_, ⟨?_, ?_, ?_⟩, ?_⟩
  · rwa [net_append _ [event], net_singleton]
  · exact ⟨low, List.mem_append_left _ hlowMem, hlow⟩
  · exact ⟨high, List.mem_append_left _ hhighMem, hhigh⟩
  · intro hgrows
    exact absurd hreduces hgrows.last
  · intro hgrows
    exact absurd hreduces hgrows.last

theorem exists_averaged (h : Unsaturated trades) (hopen : net signedTrade trades ≠ 0) :
    ∃ before run, trades = before ++ run ∧ Averaged before run := by
  induction trades using List.reverseRecOn with
  | nil => exact absurd net_nil hopen
  | append_singleton trades event ih =>
    by_cases hsign :
        (net signedTrade (trades ++ [event])).sign = (net signedTrade trades).sign
    · have hheld : net signedTrade trades ≠ 0 := by
        intro hflat
        rw [hflat, Int.sign_zero] at hsign
        exact hopen (Int.sign_eq_zero_iff_zero.mp hsign)
      obtain ⟨before, run, hsplit, hrun⟩ := ih h.of_append hheld
      subst hsplit
      refine ⟨before, run ++ [event], List.append_assoc _ _ _, ?_⟩
      have hquantity := h.last.1
      have hchange := natAbs_signedTrade event
      have hnet : net signedTrade (before ++ run ++ [event]) =
          net signedTrade (before ++ run) + signedTrade event := by
        rw [net_append _ [event], net_singleton]
      rcases Nat.lt_or_ge (net signedTrade (before ++ run)).natAbs
          (net signedTrade (before ++ run ++ [event])).natAbs with hmore | hless
      · exact hrun.grown h hsign hmore
      · apply hrun.reduced h
        rw [hnet] at hsign hless
        refine ⟨hsign, ?_⟩
        rw [sign_eq_sign_iff] at hsign
        omega
    · exact ⟨trades, [event], rfl, averaged_opened h hopen (Ne.symm hsign)⟩

end Step

/-- The average price of instrument `i` after the trades, against its accepted ones. -/
structure AveragesOpenRun (i : InstrumentId) (events : List TradeEvent) : Prop where
  quantity : ((Ledger.new.applyAll events).quantity i).toInt =
    net signedTrade (tradesOf i events)
  flat : (Ledger.new.applyAll events).quantity i = 0 →
    (Ledger.new.applyAll events).avgPrice i = 0
  hasRun : (Ledger.new.applyAll events).quantity i ≠ 0 →
    ∃ before run, tradesOf i events = before ++ run ∧ OpenRun signedTrade before run
  average : ∀ before run, tradesOf i events = before ++ run → OpenRun signedTrade before run →
    RunAverage before run ((Ledger.new.applyAll events).avgPrice i)
  reduced : ∀ earlier event, events = earlier ++ [event] → event.instrumentId = i →
    ((Ledger.new.applyAll earlier).applyTradeEvent event).2.isSome →
    Reduces ((Ledger.new.applyAll earlier).quantity i).toInt (signedTrade event) →
    (Ledger.new.applyAll events).avgPrice i = (Ledger.new.applyAll earlier).avgPrice i

/-- As long as no sum saturates, the average price is zero for a flat position
and otherwise an average of the open run's prices. -/
theorem average_of_open_run (i : InstrumentId) (events : List TradeEvent)
    (h : Unsaturated (tradesOf i events)) : AveragesOpenRun i events := by
  obtain ⟨hquantity, havg⟩ := position_eq_held events i
  have hnet := h.held_quantity
  refine ⟨?_, ?_, ?_, ?_, ?_⟩
  · rw [hquantity, hnet]
  · intro hflat
    rw [hquantity] at hflat
    rw [havg]
    cases htrades : tradesOf i events using List.reverseRecOn with
    | nil => rfl
    | append_singleton trades event =>
      rw [htrades] at hflat
      rw [held_avgPrice]
      apply nextAvgPrice_closed
      rw [hflat, Int64.toInt_zero]
  · intro hopen
    rw [hquantity, Ne, ← Int64.toInt_inj, Int64.toInt_zero, hnet] at hopen
    exact exists_openRun hopen
  · intro before run hsplit hopenRun
    have hopen : net signedTrade (tradesOf i events) ≠ 0 := by
      rw [hsplit]
      exact hopenRun.isOpen
    obtain ⟨before', run', hsplit', hrun⟩ := exists_averaged h hopen
    have hsame := hopenRun.unique hrun.openRun (hsplit.symm.trans hsplit')
    rw [hsame.1, hsame.2, havg, hsplit']
    exact hrun.average
  · intro earlier event hevents hi haccepted hreduces
    subst hevents
    have hnew := (Ledger.applyTradeEvent_accepted_iff _ event).mp haccepted
    have htrades : tradesOf i (earlier ++ [event]) = tradesOf i earlier ++ [event] := by
      rw [tradesOf_append, if_pos ⟨hi, hnew⟩]
    obtain ⟨hquantityBefore, havgBefore⟩ := position_eq_held earlier i
    rw [htrades] at h havg
    rw [hquantityBefore, h.of_append.held_quantity] at hreduces
    rw [havg, havgBefore]
    exact held_avgPrice_reduced h hreduces

/-- Long 2, turned to short 3, reduced to 2, grown to 4. -/
def turnedShort : List TradeEvent :=
  [⟨default, 1, 1, .buy, 10, 2, 1⟩, ⟨default, 2, 2, .sell, 12, 5, 2⟩,
    ⟨default, 3, 3, .buy, 11, 1, 3⟩, ⟨default, 4, 4, .sell, 13, 2, 4⟩]

theorem tradesOf_turnedShort : tradesOf default turnedShort = turnedShort := by
  rfl

theorem average_of_open_run_turned_short :
    AveragesOpenRun default turnedShort ∧
      (Ledger.new.applyAll turnedShort).quantity default = -4 ∧
      (Ledger.new.applyAll turnedShort).avgPrice default = 25 / 2 := by
  have hsums : ∀ part ∈ turnedShort.inits, FitsI64 (net signedTrade part) := by decide
  have hunsaturated : Unsaturated (tradesOf default turnedShort) := by
    rw [tradesOf_turnedShort]
    exact ⟨by decide, fun part hpart => hsums part (List.mem_inits _ _ |>.mpr hpart)⟩
  exact ⟨average_of_open_run default turnedShort hunsaturated, by rfl, by decide +kernel⟩

end Nnxt.AveragePrice
