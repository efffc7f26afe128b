/-
  File:      BondTrading/Desk.lean
  Subject:   THE WHOLE PROGRAM (main.cpp and the listener classes): its services, who listens to
             whom, and what one message sets off.

  A service hands out the calls its listeners get; the desk makes them, in order, each to its end
  before the next one, as the nested calls of the code do. (No listener reads the service that
  calls it, so it does not matter that the caller's state is already the one after the call.)

  * `Desk`, `declared`, `wireServices`, `wireHistorical` -- the objects of `main` and its
    `AddListener` calls;
  * `onTrade`, `onPrice`, `onOrderBook`, `acceptInquiry` -- one message and everything behind it;
  * `onTrade_eq`, `onPrice_eq`, `onOrderBook_eq`, `acceptInquiry_eq` -- what that is, for a desk
    that is wired as in `main`.

  `uninit n` is the value the uninitialised local of `GetAggregatePosition` happens to hold in
  the `n`-th call of the program; `long` is what its arithmetic makes of a sum of `long`s, and
  `onTrade` and `main` are the program in whole numbers.
-/
import BondTrading.Historical

namespace BondTrading

open Cxx

/-! ## 1. The objects -/

inductive TradeListener where
  | bondTradeServiceListener
  deriving DecidableEq, Repr

inductive PositionListener where
  | bondPositionServiceListener
  | positionDataListener
  deriving DecidableEq, Repr

inductive RiskHistoryListener where
  | riskListener
  deriving DecidableEq, Repr

inductive PriceListener where
  | bondPricingListener
  deriving DecidableEq, Repr

inductive StreamListener where
  | streamingListener
  deriving DecidableEq, Repr

inductive BookListener where
  | marketDataListener
  deriving DecidableEq, Repr

inductive OrderListener where
  | executionListener
  deriving DecidableEq, Repr

inductive InquiryDataListener where
  | inquiryListener
  deriving DecidableEq, Repr

/-- The objects of `main`; nobody listens to single risk entries. `reads` counts the calls of
    `GetAggregatePosition`. -/
structure Desk where
  tradeSrv : BondTradeBookingService TradeListener
  positionSrv : BondPositionService PositionListener
  riskSrv : BondRiskService Empty RiskHistoryListener
  priceSrv : BondPricingService PriceListener
  streamingSrv : BondStreamingService StreamListener
  marketDataSrv : BondMarketDataService BookListener
  executionSrv : BondExecutionService OrderListener
  algoExecutionSrv : BondAlgoExecutionService
  inquirySrv : BondInquiryService InquiryDataListener
  archive : Archive
  reads : Nat

namespace Desk

/-- The objects as they are declared, over a disk. -/
def declared (disk : String → Option (List Item)) : Desk where
  tradeSrv := .empty
  positionSrv := .empty
  riskSrv := .empty
  priceSrv := .empty
  streamingSrv := .empty
  marketDataSrv := .empty
  executionSrv := .empty
  algoExecutionSrv := .fresh
  inquirySrv := .empty
  archive := .fresh disk
  reads := 0

/-- The `AddListener` calls of the sections A, B and C of `main`. -/
def wireServices (d : Desk) : Desk :=
  { d with
    tradeSrv := d.tradeSrv.addListener .bondTradeServiceListener
    positionSrv := d.positionSrv.addListener .bondPositionServiceListener
    priceSrv := d.priceSrv.addListener .bondPricingListener
    marketDataSrv := d.marketDataSrv.addListener .marketDataListener }

/-- The `AddListener` calls of section E. -/
def wireHistorical (d : Desk) : Desk :=
  { d with
    positionSrv := d.positionSrv.addListener .positionDataListener
    riskSrv := d.riskSrv.addHistoricalDataListener .riskListener
    executionSrv := d.executionSrv.addListener .executionListener
    streamingSrv := d.streamingSrv.addListener .streamingListener
    inquirySrv := d.inquirySrv.addListener .inquiryListener }

/-- The desk before the first file is read: with the services wired, and with the historical ones
    behind them or without. -/
def wired (historical : Bool) (disk : String → Option (List Item)) : Desk :=
  if historical then (declared disk).wireServices.wireHistorical else (declared disk).wireServices

/-! ## 2. Who is called -/

section Calls

/-- A listener of the risk service. -/
def processRisk (d : Desk) (call : RiskHistoryListener × List PV01) : Desk :=
  match call.1 with
  | .riskListener => { d with archive := d.archive.f1Message (.risk call.2) }

section Trades

variable (long : ℤ → ℤ) (uninit : Nat → ℤ)

/-- A listener of the position service; each of the two asks the position for its aggregate
    once. -/
def processPosition (d : Desk) (call : PositionListener × Position) : Desk :=
  match call.1 with
  | .bondPositionServiceListener =>
      let (riskSrv, calls) := d.riskSrv.addPositionWith long (uninit d.reads) call.2
      calls.foldl processRisk { d with riskSrv := riskSrv, reads := d.reads + 1 }
  | .positionDataListener =>
      { d with
        archive := d.archive.positionMessageWith long (uninit d.reads) call.2
        reads := d.reads + 1 }

/-- A listener of the trade booking service. -/
def processTrade (d : Desk) (call : TradeListener × Trade) : Desk :=
  match call.1 with
  | .bondTradeServiceListener =>
      let (positionSrv, calls) := d.positionSrv.addTradeWith long call.2
      calls.foldl (processPosition long uninit) { d with positionSrv := positionSrv }

/-- `trade_srv.OnMessage`. -/
def onTradeWith (trade : Trade) (d : Desk) : Desk :=
  let (tradeSrv, calls) := d.tradeSrv.onMessage trade
  calls.foldl (processTrade long uninit) { d with tradeSrv := tradeSrv }

end Trades

def onTrade : (Nat → ℤ) → Trade → Desk → Desk := onTradeWith id

/-- A listener of the streaming service. -/
def processStream (d : Desk) (call : StreamListener × PriceStream) : Desk :=
  match call.1 with
  | .streamingListener => { d with archive := d.archive.f1Message (.streaming call.2) }

/-- A listener of the pricing service. -/
def processPrice (d : Desk) (call : PriceListener × Price) : Desk :=
  match call.1 with
  | .bondPricingListener =>
      let (streamingSrv, calls) := BondPricingListener.processAdd call.2 d.streamingSrv
      calls.foldl processStream { d with streamingSrv := streamingSrv }

/-- `price_srv.OnMessage`. -/
def onPrice (price : Price) (d : Desk) : Desk :=
  let (priceSrv, calls) := d.priceSrv.onMessage price
  calls.foldl processPrice { d with priceSrv := priceSrv }

/-- A listener of the execution service. -/
def processOrder (d : Desk) (call : OrderListener × ExecutionOrder) : Desk :=
  match call.1 with
  | .executionListener => { d with archive := d.archive.f1Message (.execution call.2) }

/-- A listener of the market data service. -/
def processBook (call : BookListener × OrderBook) (d : Desk) : Outcome Desk :=
  match call.1 with
  | .marketDataListener =>
      match MarketDataListener.processAdd call.2 d.algoExecutionSrv d.executionSrv with
      | .error why => .stopped why d
      | .ok (algoExecutionSrv, executionSrv, calls) =>
          .done (calls.foldl processOrder
            { d with algoExecutionSrv := algoExecutionSrv, executionSrv := executionSrv })

/-- `market_data_srv.OnMessage`. -/
def onOrderBook (book : OrderBook) (d : Desk) : Outcome Desk :=
  let (marketDataSrv, calls) := d.marketDataSrv.onMessage book
  runAll processBook calls { d with marketDataSrv := marketDataSrv }

/-- A listener of the inquiry service. -/
def processInquiry (d : Desk) (call : InquiryDataListener × Inquiry) : Desk :=
  match call.1 with
  | .inquiryListener => { d with archive := d.archive.f1Message (.inquiry call.2) }

/-- What `inquiry_conn` does with one inquiry. -/
def acceptInquiry (inquiry : Inquiry) (d : Desk) : Outcome Desk :=
  match BondInquiryConnector.accept inquiry d.inquirySrv with
  | .done (inquirySrv, calls) => .done (calls.foldl processInquiry { d with inquirySrv := inquirySrv })
  | .stopped why (inquirySrv, calls) =>
      .stopped why (calls.foldl processInquiry { d with inquirySrv := inquirySrv })

section Main

variable (long : ℤ → ℤ) (uninit : Nat → ℤ)

/-- The statements of `main` behind the wiring; `files` are the input files that can be opened. -/
def readFiles (files : String → Option String) (d : Desk) : Outcome Desk :=
  (BondMarketDataConnector.readFile onOrderBook (files "marketdata.txt") d).andThen fun d =>
  (BondTradeBookingConnector.readFile (fun trade d => .done (onTradeWith long uninit trade d))
    (files "trades.txt") d).andThen fun d =>
  (BondPricingConnector.readFile (fun price d => .done (onPrice price d))
    (files "prices.txt") d).andThen fun d =>
  BondInquiryConnector.readFile acceptInquiry (files "inquiries.txt") d

/-- **`main`**: from the disk as the program finds it to the desk it ends with. -/
def mainWith (files : String → Option String) (disk : String → Option (List Item)) : Outcome Desk :=
  readFiles long uninit files (wired true disk)

end Main

def main : (Nat → ℤ) → (String → Option String) → (String → Option (List Item)) → Outcome Desk :=
  mainWith id

end Calls

/-! ## 3. What one message does -/

/-- The listeners of a desk are those of `main`, with the historical ones or without. -/
structure Wired (historical : Bool) (d : Desk) : Prop where
  trade : d.tradeSrv.listenersList = [.bondTradeServiceListener]
  position : d.positionSrv.listenerList =
    .bondPositionServiceListener :: if historical then [.positionDataListener] else []
  risk : d.riskSrv.historicalDataListenerList = if historical then [.riskListener] else []
  price : d.priceSrv.listenerList = [.bondPricingListener]
  streaming : d.streamingSrv.listenerList = if historical then [.streamingListener] else []
  marketData : d.marketDataSrv.listenerList = [.marketDataListener]
  execution : d.executionSrv.listenerList = if historical then [.executionListener] else []
  inquiry : d.inquirySrv.listenerList = if historical then [.inquiryListener] else []

theorem wired_wired (historical : Bool) (disk : String → Option (List Item)) :
    Wired historical (wired historical disk) := by
  cases historical <;> exact ⟨rfl, rfl, rfl, rfl, rfl, rfl, rfl, rfl⟩

/-- How often `GetAggregatePosition` is called for one trade. -/
def readsPerTrade (historical : Bool) : Nat := if historical then 2 else 1

section Effects

variable {historical : Bool} {d : Desk} (h : Wired historical d)

include h

/-- **One trade**: it is booked, entered into the positions, and the trade's own position goes to
    the risk service and to the position report. -/
theorem onTradeWith_eq (long : ℤ → ℤ) (uninit : Nat → ℤ) (trade : Trade) :
    onTradeWith long uninit trade d =
      { d with
        tradeSrv := d.tradeSrv.bookTrade trade
        positionSrv := (d.positionSrv.addTradeWith long trade).1
        riskSrv := (d.riskSrv.addPositionWith long (uninit d.reads) (.ofTradeWith long trade)).1
        archive :=
          if historical then
            (d.archive.f1Message (.risk (d.riskSrv.addPositionWith long (uninit d.reads)
              (.ofTradeWith long trade)).1.riskPosition)).positionMessageWith long
                (uninit (d.reads + 1)) (.ofTradeWith long trade)
          else d.archive
        reads := d.reads + readsPerTrade historical } := by
  unfold onTradeWith BondTradeBookingService.onMessage
  simp only [h.trade, notify_cons, notify_nil, List.foldl_cons, List.foldl_nil, processTrade,
    BondPositionService.addTradeWith_calls, h.position]
  cases historical with
  | false =>
      simp [processPosition, BondRiskService.addPositionWith, h.risk, readsPerTrade]
  | true =>
      simp [processPosition, processRisk, BondRiskService.addPositionWith, h.risk, readsPerTrade]

theorem onTrade_eq (uninit : Nat → ℤ) (trade : Trade) :
    onTrade uninit trade d =
      { d with
        tradeSrv := d.tradeSrv.bookTrade trade
        positionSrv := (d.positionSrv.addTrade trade).1
        riskSrv := (d.riskSrv.addPosition (uninit d.reads) (.ofTrade trade)).1
        archive :=
          if historical then
            (d.archive.f1Message (.risk
              (d.riskSrv.addPosition (uninit d.reads) (.ofTrade trade)).1.riskPosition)).positionMessage
              (uninit (d.reads + 1)) (.ofTrade trade)
          else d.archive
        reads := d.reads + readsPerTrade historical } :=
  onTradeWith_eq h id uninit trade

theorem wired_onTrade (uninit : Nat → ℤ) (trade : Trade) :
    Wired historical (onTrade uninit trade d) := by
  rw [onTrade_eq h, BondPositionService.addTrade_eq]
  exact ⟨h.trade, h.position, h.risk, h.price, h.streaming, h.marketData, h.execution, h.inquiry⟩

/-- **One price**: it is stored, and the stream around it is stored and reported. -/
theorem onPrice_eq (price : Price) :
    onPrice price d =
      { d with
        priceSrv := { d.priceSrv with bondPrice := d.priceSrv.bondPrice ++ [price] }
        streamingSrv := { d.streamingSrv with bondPriceStream :=
          d.streamingSrv.bondPriceStream ++ [BondAlgoStreamingService.streamFor price] }
        archive :=
          if historical then
            d.archive.f1Message (.streaming (BondAlgoStreamingService.streamFor price))
          else d.archive } := by
  unfold onPrice BondPricingService.onMessage
  simp only [h.price, notify_cons, notify_nil, List.foldl_cons, List.foldl_nil, processPrice,
    BondPricingListener.processAdd, BondAlgoStreamingService.onMessage,
    BondStreamingService.publishPrice, h.streaming]
  cases historical with
  | false => simp
  | true => simp [processStream]

theorem wired_onPrice (price : Price) : Wired historical (onPrice price d) := by
  rw [onPrice_eq h]
  exact ⟨h.trade, h.position, h.risk, h.price, h.streaming, h.marketData, h.execution, h.inquiry⟩

/-- What one price adds to the two stores. -/
theorem stores_onPrice (price : Price) :
    (onPrice price d).priceSrv.bondPrice = d.priceSrv.bondPrice ++ [price] ∧
      (onPrice price d).streamingSrv.bondPriceStream =
        d.streamingSrv.bondPriceStream ++ [BondAlgoStreamingService.streamFor price] := by
  rw [onPrice_eq h]
  exact ⟨rfl, rfl⟩

/-- **One two-sided book**: it is stored, and one order for its bond is stored and reported. -/
theorem onOrderBook_eq {book : OrderBook} (htwo : book.TwoSided) :
    ∃ algo order, order.product = Bond.ofCusip book.cusip ∧
      onOrderBook book d = .done
        { d with
          marketDataSrv := { d.marketDataSrv with bondOrderbook :=
            d.marketDataSrv.bondOrderbook ++ [book] }
          executionSrv := { d.executionSrv with bondOrder :=
            d.executionSrv.bondOrder ++ [order, order] }
          algoExecutionSrv := algo
          archive :=
            if historical then d.archive.f1Message (.execution order) else d.archive } := by
  obtain ⟨level, order, -, horder, hmessage⟩ :=
    BondAlgoExecutionService.onMessage_twoSided htwo d.algoExecutionSrv d.executionSrv
  obtain ⟨algo, hmessage⟩ : ∃ algo, d.algoExecutionSrv.onMessage book d.executionSrv =
      .ok (algo, { d.executionSrv with bondOrder := d.executionSrv.bondOrder ++ [order, order] },
        notify d.executionSrv.listenerList order) := ⟨_, hmessage⟩
  refine ⟨algo, order, by rw [horder]; rfl, ?_⟩
  unfold onOrderBook BondMarketDataService.onMessage
  simp only [h.marketData, notify_cons, notify_nil, runAll_cons, processBook,
    MarketDataListener.processAdd, hmessage, h.execution]
  cases historical with
  | false => rfl
  | true => rfl

theorem wired_onOrderBook {book : OrderBook} (htwo : book.TwoSided) {d' : Desk}
    (hdone : onOrderBook book d = .done d') : Wired historical d' := by
  obtain ⟨algo, order, -, he⟩ := onOrderBook_eq h htwo
  rw [he] at hdone
  cases hdone
  exact ⟨h.trade, h.position, h.risk, h.price, h.streaming, h.marketData, h.execution, h.inquiry⟩

/-- **One received inquiry with a new id**: it is done at 100, and that is reported. -/
theorem acceptInquiry_eq {inquiry : Inquiry} (hstate : inquiry.state = .received)
    (hnew : inquiry.inquiryId ∉ d.inquirySrv.bondInquiry.map Inquiry.inquiryId) :
    acceptInquiry inquiry d = .done
      { d with
        inquirySrv := { d.inquirySrv with bondInquiry :=
          d.inquirySrv.bondInquiry ++ [BondInquiryConnector.finished inquiry] }
        archive :=
          if historical then
            d.archive.f1Message (.inquiry (BondInquiryConnector.finished inquiry))
          else d.archive } := by
  unfold acceptInquiry
  rw [BondInquiryConnector.accept_fresh hstate hnew]
  cases historical with
  | false => simp [h.inquiry]
  | true => simp [h.inquiry, processInquiry]

theorem wired_acceptInquiry {inquiry : Inquiry} (hstate : inquiry.state = .received)
    (hnew : inquiry.inquiryId ∉ d.inquirySrv.bondInquiry.map Inquiry.inquiryId) {d' : Desk}
    (hdone : acceptInquiry inquiry d = .done d') : Wired historical d' := by
  rw [acceptInquiry_eq h hstate hnew] at hdone
  cases hdone
  exact ⟨h.trade, h.position, h.risk, h.price, h.streaming, h.marketData, h.execution, h.inquiry⟩

end Effects

end Desk

end BondTrading
