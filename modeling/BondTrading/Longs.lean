/-
  File:      BondTrading/Longs.lean
  Subject:   THE DESK WITH LONGS AS A MACHINE HAS THEM.

  Quantities are `long`s, and a sum that leaves their range is undefined. The other modules reckon in
  whole numbers; here is when that is what the program does.

  * `SumsInRange`, `LongsFit` -- the sums that the trades set off are in range;
  * `onTradeWith_exact`, `runAll_deliverWith` -- a desk over any arithmetic of `long`s then goes as the
    one in whole numbers does;
  * `services_hold` -- messages in any order, as the readers make them, get through exactly when no
    inquiry id is used twice, and then the desk holds what it should.
-/
import BondTrading.History

namespace BondTrading

open Cxx

/-! ## 1. One call -/

section Calls

variable {long : ℤ → ℤ} (hlong : LongArithmetic long) {trade : Trade}

include hlong

/-- A position service whose sums are in range. -/
theorem BondPositionService.addTradeWith_exact {ι : Type} {s : BondPositionService ι}
    (hsigned : IsLong trade.signed) (hbook : IsLong (s.held trade.cusip trade.book + trade.signed)) :
    s.addTradeWith long trade = s.addTrade trade := by
  unfold held Trade.cusip at hbook
  unfold addTrade addTradeWith
  rw [Position.ofTradeWith_eq hlong hsigned]
  cases hentry : s.currentPosition.lookup trade.product.productId with
  | none => rfl
  | some p =>
      rw [hentry, Option.map_some, Option.getD_some] at hbook
      simp only [Position.addTradeWith_eq hlong hbook]
      rfl

variable {result : ℤ} (haggregate : IsLong (result + trade.signed))

include haggregate

theorem Position.getAggregatePositionWith_exact :
    (ofTrade trade).getAggregatePositionWith long result =
      (ofTrade trade).getAggregatePosition result := by
  rw [getAggregatePositionWith_ofTrade, hlong.exact _ haggregate]
  rfl

/-- A risk service whose sums are in range. -/
theorem BondRiskService.addPositionWith_exact {ι κ : Type} {s : BondRiskService ι κ}
    (hentry : IsLong (result + trade.signed + quantityIn s.riskPosition trade.cusip)) :
    s.addPositionWith long result (.ofTrade trade) = s.addPosition result (.ofTrade trade) := by
  have hsame : updatedWith long (.ofTrade trade) (result + trade.signed) s.riskPosition =
      updated (.ofTrade trade) (result + trade.signed) s.riskPosition := by
    refine upsert_congr fun entry hfind => ?_
    have hquantity : quantityIn s.riskPosition trade.cusip = entry.quantity := by
      unfold quantityIn
      rw [show s.riskPosition.find? (PV01.isOf trade.cusip) = some entry from hfind]
      rfl
    rw [hquantity] at hentry
    rw [hlong.exact _ hentry]
    rfl
  have hsum : (Position.ofTrade trade).getAggregatePosition result = result + trade.signed := rfl
  unfold addPosition addPositionWith
  rw [Position.getAggregatePositionWith_exact hlong haggregate, hsum, hsame]
  rfl

/-- The row of a trade. -/
theorem BondHistoricalPositionDataConnector.publishWith_exact :
    publishWith long result (.ofTrade trade) = publish result (.ofTrade trade) := by
  unfold publish publishWith
  rw [Position.getAggregatePositionWith_exact hlong haggregate]
  rfl

end Calls

/-! ## 2. The trades -/

/-- The sums that one trade sets off are in range, `pre` being the trades before it: its quantity with
    the sign of its side, what its book then holds, the two aggregates, and what is then in the risk
    entry of its product. -/
structure SumsInRange (uninit : Nat → ℤ) (pre : List Trade) (trade : Trade) : Prop where
  signed : IsLong trade.signed
  book : IsLong (netBook (pre ++ [trade]) trade.cusip trade.book)
  riskAggregate : IsLong (uninit (2 * pre.length) + trade.signed)
  positionAggregate : IsLong (uninit (2 * pre.length + 1) + trade.signed)
  entry : IsLong (netProduct (pre ++ [trade]) trade.cusip +
    Desk.leftover uninit true (pre ++ [trade]) trade.cusip)

instance (uninit : Nat → ℤ) (pre : List Trade) (trade : Trade) :
    Decidable (SumsInRange uninit pre trade) :=
  decidable_of_iff (IsLong trade.signed ∧ IsLong (netBook (pre ++ [trade]) trade.cusip trade.book) ∧
      IsLong (uninit (2 * pre.length) + trade.signed) ∧
      IsLong (uninit (2 * pre.length + 1) + trade.signed) ∧
      IsLong (netProduct (pre ++ [trade]) trade.cusip +
        Desk.leftover uninit true (pre ++ [trade]) trade.cusip))
    ⟨fun ⟨hsigned, hbook, hrisk, hposition, hentry⟩ => ⟨hsigned, hbook, hrisk, hposition, hentry⟩,
      fun h => ⟨h.signed, h.book, h.riskAggregate, h.positionAggregate, h.entry⟩⟩

/-- **No sum overflows**: those of every trade are in range. -/
def LongsFit (uninit : Nat → ℤ) (trades : List Trade) : Prop :=
  ∀ n (h : n < trades.length), SumsInRange uninit (trades.take n) trades[n]

instance (uninit : Nat → ℤ) (trades : List Trade) : Decidable (LongsFit uninit trades) := by
  unfold LongsFit
  infer_instance

theorem longsFit_iff {uninit : Nat → ℤ} {trades : List Trade} :
    LongsFit uninit trades ↔ ∀ pre trade, pre ++ [trade] <+: trades → SumsInRange uninit pre trade :=
  (forall_along_iff trades).symm

/-- The sums of one of the trades among some messages. -/
theorem LongsFit.at_trade {uninit : Nat → ℤ} {pre ms : List Message} {trade : Trade}
    (h : LongsFit uninit (tradesIn ms)) (hpre : pre ++ [.trade trade] <+: ms) :
    SumsInRange uninit (tradesIn pre) trade := by
  have htrades := hpre.filterMap Message.asTrade
  rw [List.filterMap_append] at htrades
  exact longsFit_iff.mp h _ _ htrades

/-- The aggregate that the position report asks for. -/
theorem LongsFit.aggregate_zipIdx {uninit : Nat → ℤ} {trades : List Trade} {entry : Trade × Nat}
    (h : LongsFit uninit trades) (hentry : entry ∈ trades.zipIdx) :
    IsLong (uninit (2 * entry.2 + 1) + entry.1.signed) := by
  obtain ⟨hn, hget⟩ := List.getElem?_eq_some_iff.mp (List.mem_zipIdx_iff_getElem?.mp hentry)
  have haggregate := (h entry.2 hn).positionAggregate
  rw [List.length_take, Nat.min_eq_left hn.le, hget] at haggregate
  exact haggregate

namespace Desk

section Exact

variable {long : ℤ → ℤ} (hlong : LongArithmetic long) {uninit : Nat → ℤ}

include hlong

/-- **One trade** goes as in whole numbers. -/
theorem onTradeWith_exact {trades : List Trade} {d : Desk} (h : AccountsInv uninit true trades d)
    {trade : Trade} (hsums : SumsInRange uninit trades trade) :
    onTradeWith long uninit trade d = onTrade uninit trade d := by
  obtain ⟨hsigned, hbook, hrisk, hposition, hentry⟩ := hsums
  have hreads : d.reads = 2 * trades.length := h.reads
  rw [netBook_concat, if_pos ⟨rfl, rfl⟩, ← h.held] at hbook
  rw [← hreads] at hrisk hposition
  have hentry' : IsLong (uninit d.reads + trade.signed +
      BondRiskService.quantityIn d.riskSrv.riskPosition trade.cusip) := by
    rw [netProduct_concat, leftover_concat, if_pos rfl, if_pos rfl, ← h.reads] at hentry
    rw [h.quantity]
    convert hentry using 1
    ring
  rw [onTradeWith_eq h.wired, onTrade_eq h.wired, Position.ofTradeWith_eq hlong hsigned,
    BondPositionService.addTradeWith_exact hlong hsigned hbook,
    BondRiskService.addPositionWith_exact hlong hrisk hentry']
  unfold Archive.positionMessage Archive.positionMessageWith
    BondHistoricalPositionDataService.onMessageWith
  rw [BondHistoricalPositionDataConnector.publishWith_exact hlong hposition]
  rfl

theorem deliverWith_exact {pre : List Message} {m : Message} {d : Desk} (h : Held uninit pre d)
    (hsums : ∀ trade, m = .trade trade → SumsInRange uninit (tradesIn pre) trade) :
    deliverWith long uninit m d = deliver uninit m d := by
  cases m with
  | trade trade =>
      exact congrArg Outcome.done (onTradeWith_exact hlong h.trades.accounts (hsums trade rfl))
  | price _ | book _ | inquiry _ => rfl

/-- **A run of messages** in which no sum overflows goes as in whole numbers; only the trades that it
    comes to matter. -/
theorem runAll_deliverWith_of_reached {disk : String → Option (List Item)} {ms : List Message}
    (hread : ∀ m ∈ ms, m.AsRead)
    (hfit : ∀ pre trade post d, ms = pre ++ .trade trade :: post → Held uninit pre d →
      SumsInRange uninit (tradesIn pre) trade) :
    runAll (deliverWith long uninit) ms (wired true disk) =
      runAll (deliver uninit) ms (wired true disk) := by
  refine runAll_congr (J := Held uninit) ms (held_wired uninit disk) ?_ ?_
  · intro pre m post d hms h
    exact deliverWith_exact hlong h fun trade htrade => hfit pre trade post d (htrade ▸ hms) h
  · intro pre m post d d' hms h hd
    exact (held_deliver h (hread m (hms ▸ List.mem_append_right _ List.mem_cons_self)) hd).1

theorem runAll_deliverWith {disk : String → Option (List Item)} {ms : List Message}
    (hread : ∀ m ∈ ms, m.AsRead) (hfit : LongsFit uninit (tradesIn ms)) :
    runAll (deliverWith long uninit) ms (wired true disk) =
      runAll (deliver uninit) ms (wired true disk) := by
  refine runAll_deliverWith_of_reached hlong hread fun pre trade post _ hms _ => ?_
  exact hfit.at_trade ⟨post, by rw [hms, List.append_assoc]; rfl⟩

end Exact

/-! ## 3. What the desk holds -/

/-- What is left of a price in the store: the product that it refers to is the reader's, and gone. -/
def quoted (price : Price) : ℚ × ℚ := (price.mid, price.bidOfferSpread)

/-- **The desk holds what it should**: every store is its function of the messages. -/
structure Holds (uninit : Nat → ℤ) (ms : List Message) (d : Desk) : Prop where
  trades : d.tradeSrv.tradesBook = tradesIn ms
  positions : ∀ cusip book, (d.positionSrv.getData cusip).1.getPosition book =
    netBook (tradesIn ms) cusip book
  risk : d.riskSrv.riskPosition = riskEntries uninit (tradesIn ms)
  prices : d.priceSrv.bondPrice.map quoted = (pricesIn ms).map quoted
  streams : d.streamingSrv.bondPriceStream =
    (pricesIn ms).map BondAlgoStreamingService.streamFor
  books : d.marketDataSrv.bondOrderbook = booksIn ms
  orders : d.executionSrv.bondOrder = twice (ordersFor (booksIn ms))
  inquiries : d.inquirySrv.bondInquiry = (inquiriesIn ms).map BondInquiryConnector.finished

theorem Held.holds {uninit : Nat → ℤ} {ms : List Message} {d : Desk} (h : Held uninit ms d) :
    Holds uninit ms d where
  trades := h.trades.booked
  positions cusip book := by
    rw [BondPositionService.getData_held, h.trades.accounts.held]
  risk := h.trades.risk
  prices := congrArg _ h.prices.priced
  streams := h.prices.streams
  books := h.books.stored
  orders := h.books.orders
  inquiries := h.inquiries.done

/-- **The services refine their description**: messages in any order, as the readers make them and
    without an overflow, get through exactly when no inquiry id comes twice, and then every store holds
    what it should. -/
theorem services_hold {long : ℤ → ℤ} (hlong : LongArithmetic long) (uninit : Nat → ℤ)
    (disk : String → Option (List Item)) (ms : List Message) (hread : ∀ m ∈ ms, m.AsRead)
    (hfit : LongsFit uninit (tradesIn ms)) :
    ((∃ d, runAll (deliverWith long uninit) ms (wired true disk) = .done d) ↔
      ((inquiriesIn ms).map Inquiry.inquiryId).Nodup) ∧
    ∀ d, runAll (deliverWith long uninit) ms (wired true disk) = .done d → Holds uninit ms d := by
  rw [runAll_deliverWith hlong hread hfit]
  refine ⟨⟨?_, runs_of_nodup uninit disk hread⟩, fun d hd => (held_run hread hd).1.holds⟩
  rintro ⟨d, hd⟩
  exact (held_run hread hd).1.inquiries.distinct

/-- The theorem at three messages. -/
theorem services_hold_three :
    ((∃ d, runAll (deliverWith wrapLong fun _ => 0) threeMessages (wired true fun _ => none) =
        .done d) ↔
      ((inquiriesIn threeMessages).map Inquiry.inquiryId).Nodup) ∧
    ∀ d, runAll (deliverWith wrapLong fun _ => 0) threeMessages (wired true fun _ => none) =
      .done d → Holds (fun _ => 0) threeMessages d :=
  services_hold wrapLong_arithmetic (fun _ => 0) (fun _ => none) threeMessages asRead_threeMessages
    (by decide)

end Desk

end BondTrading
