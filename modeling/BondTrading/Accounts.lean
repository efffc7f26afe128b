/-
  File:      BondTrading/Accounts.lean
  Subject:   WHAT THE STORES OF THE DESK SAY ABOUT EACH OTHER, after any trades and any prices.

  * `AccountsInv` -- positions, risk entries and the trades so far; `accountsInv_run`;
  * `trade_position_risk_iff` -- the aggregate position, the risk quantity and the net traded
    quantity are equal exactly when the uninitialised local happened to hold 0 (in the call asked
    for) and values adding up to 0 (in the calls made for the product's trades);
  * `position_row_iff` -- a row of the position report shows the position held exactly when the
    earlier trades of its product cancel out in the three books;
  * `prices_agree_iff` -- the pricing store and the streaming store answer from the same message.
-/
import BondTrading.Desk

namespace BondTrading

open Cxx

namespace Desk

/-! ## 1. Trades, positions and risk -/

section Trades

variable (uninit : Nat → ℤ)

/-- The desk after some trades. -/
def runTrades (trades : List Trade) (d : Desk) : Desk :=
  trades.foldl (fun d trade => onTrade uninit trade d) d

theorem runTrades_concat (trades : List Trade) (trade : Trade) (d : Desk) :
    runTrades uninit (trades ++ [trade]) d = onTrade uninit trade (runTrades uninit trades d) := by
  simp [runTrades]

/-- What the uninitialised local held when the risk service asked for the aggregates of a product's
    trades, added up. -/
def leftover (historical : Bool) (trades : List Trade) (cusip : String) : ℤ :=
  ((trades.zipIdx.filter fun entry => entry.1.cusip = cusip).map fun entry =>
    uninit (readsPerTrade historical * entry.2)).sum

theorem leftover_concat (historical : Bool) (trades : List Trade) (trade : Trade)
    (cusip : String) :
    leftover uninit historical (trades ++ [trade]) cusip =
      leftover uninit historical trades cusip +
        if trade.cusip = cusip then uninit (readsPerTrade historical * trades.length) else 0 := by
  unfold leftover
  rw [List.zipIdx_append, List.filter_append, List.map_append, List.sum_append]
  by_cases h : trade.cusip = cusip <;> simp [h]

/-- **Positions, risk and trades**: the ledger of the position service is the net of the trades, the
    risk entries are off by what the local held, and there is one for every product traded. -/
structure AccountsInv (historical : Bool) (trades : List Trade) (d : Desk) : Prop where
  wired : Wired historical d
  reads : d.reads = readsPerTrade historical * trades.length
  held : ∀ cusip book, d.positionSrv.held cusip book = netBook trades cusip book
  heldTotal : ∀ cusip, d.positionSrv.heldTotal cusip = netProduct trades cusip
  quantity : ∀ cusip, BondRiskService.quantityIn d.riskSrv.riskPosition cusip =
    netProduct trades cusip + leftover uninit historical trades cusip
  entries : d.riskSrv.riskPosition.map PV01.cusip = (trades.map Trade.cusip).eraseDups

theorem accountsInv_wired (historical : Bool) (disk : String → Option (List Item)) :
    AccountsInv uninit historical [] (wired historical disk) := by
  refine ⟨wired_wired historical disk, ?_, ?_, ?_, ?_, ?_⟩ <;> cases historical <;>
    first | rfl | exact fun _ => rfl | exact fun _ _ => rfl

variable {uninit}

/-- **One trade keeps them in step.** -/
theorem accountsInv_onTrade {historical : Bool} {trades : List Trade} {d : Desk}
    (h : AccountsInv uninit historical trades d) (trade : Trade) :
    AccountsInv uninit historical (trades ++ [trade]) (onTrade uninit trade d) := by
  refine ⟨wired_onTrade h.wired uninit trade, ?_, ?_, ?_, ?_, ?_⟩ <;> rw [onTrade_eq h.wired]
  · show d.reads + _ = _
    rw [h.reads, List.length_append, List.length_singleton, Nat.mul_succ]
  · intro cusip book
    rw [BondPositionService.held_addTrade, h.held, netBook_concat]
  · intro cusip
    rw [BondPositionService.heldTotal_addTrade, h.heldTotal, netProduct_concat]
  · intro cusip
    show BondRiskService.quantityIn (BondRiskService.updated _
      ((Position.ofTrade trade).getAggregatePosition (uninit d.reads)) _) cusip = _
    rw [BondRiskService.quantityIn_updated, h.quantity, netProduct_concat, leftover_concat,
      Position.getAggregatePosition_eq, Position.total_ofTrade, h.reads]
    show _ + (if trade.cusip = cusip then _ else 0) = _
    split_ifs <;> ring
  · show (BondRiskService.updated _ _ _).map PV01.cusip = _
    rw [BondRiskService.keys_updated, h.entries, List.map_append, List.map_singleton,
      eraseDups_concat]
    rfl

theorem accountsInv_run (uninit : Nat → ℤ) (historical : Bool)
    (disk : String → Option (List Item)) (trades : List Trade) :
    AccountsInv uninit historical trades (runTrades uninit trades (wired historical disk)) :=
  foldl_invariant (I := AccountsInv uninit historical) (accountsInv_wired uninit historical disk)
    (fun _ trade _ ih => accountsInv_onTrade ih trade) trades

/-- **The three figures of a product are equal**: the aggregate of its position (`result` is the
    uninitialised local of that call), the quantity of its risk entry, and what was traded. -/
def Agree (d : Desk) (trades : List Trade) (cusip : String) (result : ℤ) : Prop :=
  ∃ entry, d.riskSrv.getData cusip = some entry ∧
    (d.positionSrv.getData cusip).1.getAggregatePosition result = entry.quantity ∧
    entry.quantity = netProduct trades cusip

/-- A product that was traded has a risk entry, in the quantity the store holds. -/
theorem AccountsInv.riskEntry {historical : Bool} {trades : List Trade} {d : Desk}
    (h : AccountsInv uninit historical trades d) {cusip : String}
    (hmem : cusip ∈ trades.map Trade.cusip) :
    ∃ entry, d.riskSrv.getData cusip = some entry ∧
      entry.quantity = netProduct trades cusip + leftover uninit historical trades cusip := by
  have hkey : cusip ∈ d.riskSrv.riskPosition.map PV01.cusip := by
    rw [h.entries]
    exact List.mem_eraseDups.mpr hmem
  obtain ⟨entry₀, hentry₀, hcusip⟩ := List.mem_map.mp hkey
  cases hfind : d.riskSrv.riskPosition.find? (PV01.isOf cusip) with
  | none =>
      have := List.find?_eq_none.mp hfind entry₀ hentry₀
      exact absurd (PV01.isOf_iff.mpr hcusip) this
  | some entry =>
      refine ⟨entry, hfind, ?_⟩
      rw [← h.quantity, BondRiskService.quantityIn, hfind]
      rfl

theorem AccountsInv.agree_iff {historical : Bool} {trades : List Trade} {d : Desk}
    (h : AccountsInv uninit historical trades d) {cusip : String}
    (hmem : cusip ∈ trades.map Trade.cusip) (result : ℤ) :
    Agree d trades cusip result ↔
      result = 0 ∧ leftover uninit historical trades cusip = 0 := by
  obtain ⟨entry, hget, hquantity⟩ := h.riskEntry hmem
  have haggregate : (d.positionSrv.getData cusip).1.getAggregatePosition result =
      netProduct trades cusip + result := by
    rw [Position.getAggregatePosition_eq, BondPositionService.getData_heldTotal, h.heldTotal]
  constructor
  · intro hagree
    obtain ⟨entry', hget', hsame, hnet⟩ := hagree
    rw [hget, Option.some.injEq] at hget'
    subst hget'
    rw [haggregate] at hsame
    omega
  · intro hzero
    obtain ⟨hresult, hleft⟩ := hzero
    exact ⟨entry, hget, by omega, by omega⟩

/-- **Trade, position and risk agree on a product exactly when the uninitialised local was 0 in the
    aggregate asked for and its values in the `AddPosition` calls for that product add up to 0**:
    over the services alone, and over the whole wiring of `main`. -/
theorem trade_position_risk_iff (uninit : Nat → ℤ) (historical : Bool)
    (disk : String → Option (List Item)) (trades : List Trade) (cusip : String)
    (hmem : cusip ∈ trades.map Trade.cusip) :
    Agree (runTrades uninit trades (wired historical disk)) trades cusip
        (uninit (runTrades uninit trades (wired historical disk)).reads) ↔
      uninit (readsPerTrade historical * trades.length) = 0 ∧
        leftover uninit historical trades cusip = 0 := by
  have h := accountsInv_run uninit historical disk trades
  rw [h.agree_iff hmem, h.reads]

/-- A purchase of 1000 two-year notes. -/
def purchase : Trade := ⟨.ofCusip "912828M72", "T1", "TRSY1", 1000, .buy⟩

/-- The theorem at one purchase, the local being 0 throughout. -/
theorem trade_position_risk_iff_purchase :
    Agree (runTrades (fun _ => 0) [purchase] (wired false fun _ => none)) [purchase] "912828M72"
        ((fun _ => 0 : Nat → ℤ)
          (runTrades (fun _ => 0) [purchase] (wired false fun _ => none)).reads) ↔
      (fun _ => 0 : Nat → ℤ) (readsPerTrade false * [purchase].length) = 0 ∧
        leftover (fun _ => 0) false [purchase] "912828M72" = 0 :=
  trade_position_risk_iff (fun _ => 0) false (fun _ => none) [purchase] "912828M72" (by decide)

/-- Two purchases, the local holding 0, 1 and 2 in turn: three different figures. -/
theorem purchases_disagree :
    let d := runTrades (fun n => n) [purchase, purchase] (wired false fun _ => none)
    ¬ Agree d [purchase, purchase] "912828M72" d.reads ∧
    (d.positionSrv.getData "912828M72").1.getAggregatePosition d.reads = 2002 ∧
    (d.riskSrv.getData "912828M72").map PV01.quantity = some 2001 ∧
    netProduct [purchase, purchase] "912828M72" = 2000 := by
  refine ⟨fun h => ?_, by decide +kernel, by decide +kernel, by decide +kernel⟩
  obtain ⟨entry, hget, -, hnet⟩ := h
  have hquantity : (BondRiskService.getData "912828M72" (runTrades (fun n => (n : ℤ))
      [purchase, purchase] (wired false fun _ => none)).riskSrv).map PV01.quantity =
        some 2001 := by decide +kernel
  rw [hget, Option.map_some, hnet] at hquantity
  exact absurd hquantity (by decide +kernel)

end Trades

/-! ## 2. The position report -/

section PositionReport

variable (uninit : Nat → ℤ) (disk : String → Option (List Item))

/-- The row of a trade: its own position, under its number. -/
def tradeRow (trade : Trade) (k : Nat) : List Item :=
  rowOf (BondHistoricalPositionDataConnector.publish
    (uninit (readsPerTrade true * k + 1)) (.ofTrade trade)) (int32 (k + 1))

/-- One row per trade is added at the end of the report, whatever the other services write. -/
theorem positionLog_onTrade {n : Nat} {d : Desk} (hwired : Wired true d)
    (hlog : PositionLog n d.archive) (hreads : d.reads = readsPerTrade true * n) (trade : Trade) :
    PositionLog (n + 1) (onTrade uninit trade d).archive ∧
      ∃ content, (onTrade uninit trade d).archive.disk "position.txt" = some content ∧
        rowsOf content = d.archive.positionRows ++ [tradeRow uninit trade n] := by
  obtain ⟨hf1, hrows⟩ := positionLog_f1Message hlog
    (.risk (d.riskSrv.addPosition (uninit d.reads) (.ofTrade trade)).1.riskPosition)
  have hposition := positionLog_positionMessage hf1 (uninit (d.reads + 1)) (.ofTrade trade)
  rw [hrows] at hposition
  rw [tradeRow, ← hreads, onTrade_eq hwired]
  exact hposition

theorem positionLog_runTrades (trades : List Trade) :
    PositionLog trades.length (runTrades uninit trades (wired true disk)).archive := by
  induction trades using List.reverseRecOn with
  | nil => exact positionLog_fresh disk
  | append_singleton trades trade ih =>
      have hinv := accountsInv_run uninit true disk trades
      rw [runTrades_concat, List.length_append]
      exact (positionLog_onTrade uninit hinv.wired ih hinv.reads trade).1

/-- **The last row** of the report is that of the last trade. -/
theorem rows_runTrades_concat (trades : List Trade) (trade : Trade) :
    ∃ content,
      (runTrades uninit (trades ++ [trade]) (wired true disk)).archive.disk "position.txt" =
        some content ∧
      rowsOf content = (runTrades uninit trades (wired true disk)).archive.positionRows ++
        [tradeRow uninit trade trades.length] := by
  have hinv := accountsInv_run uninit true disk trades
  rw [runTrades_concat]
  exact (positionLog_onTrade uninit hinv.wired (positionLog_runTrades uninit disk trades)
    hinv.reads trade).2

/-- **All rows**, as long as the counter does not come back to 1: the heading line, and the row of
    every trade. -/
theorem positionRows_runTrades (trades : List Trade) (hlen : trades.length < 2147483648) :
    (runTrades uninit trades (wired true disk)).archive.positionRows =
      Report.position.headings ::
        trades.zipIdx.map fun entry => tradeRow uninit entry.1 entry.2 := by
  induction trades using List.reverseRecOn with
  | nil => rfl
  | append_singleton trades trade ih =>
      rw [List.length_append, List.length_singleton] at hlen
      obtain ⟨content, hcontent, hrows⟩ := rows_runTrades_concat uninit disk trades trade
      have hlog := positionLog_runTrades uninit disk (trades ++ [trade])
      have hne : (runTrades uninit (trades ++ [trade])
          (wired true disk)).archive.hisPosition ≠ 1 := by
        rw [hlog.counter, List.length_append, List.length_singleton]
        exact int32_ne_one (by omega) (by omega)
      rw [Archive.positionRows, if_neg hne, hcontent, Option.map_some, Option.getD_some, hrows,
        ih (by omega), List.zipIdx_append]
      simp

/-- **Row `k` stays**: after any further trades it is what it was. -/
theorem row_runTrades (pre : List Trade) (trade : Trade) (post : List Trade)
    (hlen : pre.length + 1 + post.length < 2147483648) :
    ∃ content,
      (runTrades uninit (pre ++ trade :: post) (wired true disk)).archive.disk "position.txt" =
        some content ∧
      (rowsOf content)[pre.length + 1]? = some (tradeRow uninit trade pre.length) := by
  obtain ⟨init, last, hinit⟩ : ∃ init last, pre ++ trade :: post = init ++ [last] :=
    ⟨_, _, (List.dropLast_append_getLast (l := pre ++ trade :: post) (by simp)).symm⟩
  have hlength := congrArg List.length hinit
  simp only [List.length_append, List.length_cons, List.length_nil] at hlength
  obtain ⟨content, hcontent, hrows⟩ := rows_runTrades_concat uninit disk init last
  rw [positionRows_runTrades uninit disk init (by omega)] at hrows
  have hall : rowsOf content = Report.position.headings ::
      (pre ++ trade :: post).zipIdx.map fun entry => tradeRow uninit entry.1 entry.2 := by
    rw [hrows, hinit, List.zipIdx_append]
    simp
  refine ⟨content, by rw [hinit]; exact hcontent, ?_⟩
  rw [hall, List.getElem?_cons_succ, List.getElem?_map, List.getElem?_zipIdx]
  simp

/-- The books the report has a column for. -/
def trsyBooks : List String := ["TRSY1", "TRSY2", "TRSY3"]

/-- The three book columns of a row. -/
def trsyColumns (row : List Item) : List (Option Item) := [row[6]?, row[7]?, row[8]?]

/-- The columns of a row are the quantities of the position it was made from. -/
theorem trsyColumns_rowOf (result : ℤ) (data : Position) (key : ℤ) :
    trsyColumns (rowOf (BondHistoricalPositionDataConnector.publish result data) key) =
      trsyBooks.map fun book => some (.long 10 (data.getPosition book)) := rfl

/-- What the listeners get differs from what is held by the trades made before. -/
theorem passed_eq_held_iff (pre : List Trade) (trade : Trade) (book : String) :
    (Position.ofTrade trade).getPosition book =
        ((runTrades uninit (pre ++ [trade]) (wired true disk)).positionSrv.getData
          trade.cusip).1.getPosition book ↔
      netBook pre trade.cusip book = 0 := by
  rw [BondPositionService.getData_held,
    (accountsInv_run uninit true disk (pre ++ [trade])).held, netBook_concat,
    Position.getPosition_ofTrade]
  simp

end PositionReport

/-- The desk after some prices. -/
def runPrices (prices : List Price) (d : Desk) : Desk :=
  prices.foldl (fun d price => onPrice price d) d

/-- **Both stores have every message**, in order. -/
theorem stores_runPrices (historical : Bool) (disk : String → Option (List Item))
    (prices : List Price) :
    Wired historical (runPrices prices (wired historical disk)) ∧
    (runPrices prices (wired historical disk)).priceSrv.bondPrice = prices ∧
    (runPrices prices (wired historical disk)).streamingSrv.bondPriceStream =
      prices.map BondAlgoStreamingService.streamFor := by
  refine foldl_invariant (I := fun pre d => Wired historical d ∧ d.priceSrv.bondPrice = pre ∧
    d.streamingSrv.bondPriceStream = pre.map BondAlgoStreamingService.streamFor)
    (s := wired historical disk) ⟨wired_wired historical disk, ?_, ?_⟩ ?_ prices
  · cases historical <;> rfl
  · cases historical <;> rfl
  · intro pre price d h
    obtain ⟨hwired, hprices, hstreams⟩ := h
    obtain ⟨hprice, hstream⟩ := stores_onPrice hwired price
    refine ⟨wired_onPrice hwired price, ?_, ?_⟩
    · rw [hprice, hprices]
    · rw [hstream, hstreams, List.map_append]
      rfl

/-- **The pricing store and the streaming store answer from a message with the same mid and spread,
    the last one for the product, exactly when the product's first message has them too** and lies
    within reach of the `int` index. -/
theorem prices_agree_iff (historical : Bool) (disk : String → Option (List Item))
    (prices : List Price) (cusip : String) :
    AgreeOnLast prices cusip (runPrices prices (wired historical disk)).priceSrv
        (runPrices prices (wired historical disk)).streamingSrv ↔
      FirstLikeLast prices cusip := by
  obtain ⟨-, hprices, hstreams⟩ := stores_runPrices historical disk prices
  exact agreeOnLast_iff hprices hstreams cusip

/-- A product priced at 99, then at 100: the pricing store answers 99, the stream is around 100. -/
theorem repriced_disagree :
    let prices : List Price :=
      [⟨.ofCusip "912828M72", 99, 1 / 128⟩, ⟨.ofCusip "912828M72", 100, 1 / 128⟩]
    let d := runPrices prices (wired true fun _ => none)
    ¬ AgreeOnLast prices "912828M72" d.priceSrv d.streamingSrv ∧
    (d.priceSrv.getData "912828M72").map Price.mid = some 99 ∧
    (d.streamingSrv.getData "912828M72").map (fun stream => stream.bidOrder.price) =
      some (100 - 1 / 256) := by
  refine ⟨fun h => ?_, by decide +kernel, by decide +kernel⟩
  obtain ⟨last, price, -, hlast, hprice, -, hmid, -⟩ := h
  have hfirst : (BondPricingService.getData "912828M72" (runPrices
      [⟨.ofCusip "912828M72", 99, 1 / 128⟩, ⟨.ofCusip "912828M72", 100, 1 / 128⟩]
      (wired true fun _ => none)).priceSrv).map Price.mid = some 99 := by decide +kernel
  have hthen : ((messagesFor "912828M72" [⟨.ofCusip "912828M72", 99, 1 / 128⟩,
      ⟨.ofCusip "912828M72", 100, 1 / 128⟩]).getLast?).map Price.mid = some 100 := by
    decide +kernel
  rw [hprice, Option.map_some, hmid] at hfirst
  rw [hlast, Option.map_some, hfirst] at hthen
  exact absurd hthen (by decide +kernel)

end Desk

end BondTrading
