/-
  File:      BondTrading/History.lean
  Subject:   THE SERVICES AS FUNCTIONS OF THE MESSAGES SO FAR.

  What the services should hold, said without their code: the trades, prices, books and inquiries
  that came in, and what follows from these.

  * `tradesIn`, `pricesIn`, `booksIn`, `inquiriesIn` -- the messages of each kind;
  * `ordersFor` -- the algorithm's orders as a function of the books;
  * `riskEntries` -- the risk entries as a function of the trades;
  * `Held` -- every store of the desk is its function of the messages; `held_run`;
  * `runs_of_nodup` -- messages in any order, as the readers make them, get through if no inquiry id is
    used twice.
-/
import BondTrading.Messages

namespace BondTrading

open Cxx

/-! ## 1. What has come in -/

namespace Message

def asTrade : Message → Option Trade
  | .trade made => some made
  | _ => none

def asPrice : Message → Option Price
  | .price quoted => some quoted
  | _ => none

def asBook : Message → Option OrderBook
  | .book quoted => some quoted
  | _ => none

def asInquiry : Message → Option Inquiry
  | .inquiry asked => some asked
  | _ => none

/-- The messages as the readers make them: a trade's bond is the one of its CUSIP, a book has levels
    on both sides, an inquiry comes in received. -/
def AsRead : Message → Prop
  | .trade made => made.product = Bond.ofCusip made.cusip
  | .price _ => True
  | .book quoted => quoted.TwoSided
  | .inquiry asked => asked.state = .received

end Message

def tradesIn (ms : List Message) : List Trade := ms.filterMap Message.asTrade

def pricesIn (ms : List Message) : List Price := ms.filterMap Message.asPrice

def booksIn (ms : List Message) : List OrderBook := ms.filterMap Message.asBook

def inquiriesIn (ms : List Message) : List Inquiry := ms.filterMap Message.asInquiry

section Concat

variable (ms : List Message) (m : Message)

theorem tradesIn_concat : tradesIn (ms ++ [m]) = tradesIn ms ++ m.asTrade.toList :=
  filterMap_concat _ ms m

theorem pricesIn_concat : pricesIn (ms ++ [m]) = pricesIn ms ++ m.asPrice.toList :=
  filterMap_concat _ ms m

theorem booksIn_concat : booksIn (ms ++ [m]) = booksIn ms ++ m.asBook.toList :=
  filterMap_concat _ ms m

theorem inquiriesIn_concat : inquiriesIn (ms ++ [m]) = inquiriesIn ms ++ m.asInquiry.toList :=
  filterMap_concat _ ms m

end Concat

/-! ## 2. Orders -/

/-- The side a book is answered on: the books of its product take turns, `BID` first. -/
def turn (earlier : List OrderBook) (book : OrderBook) : PricingSide :=
  if AlgoRun.booksOf book.cusip earlier % 2 = 0 then .bid else .offer

/-- **The order for a book**, `earlier` being the books before it: at the best level of the other
    side, if there is one. -/
def orderFor (earlier : List OrderBook) (book : OrderBook) : List ExecutionOrder :=
  match BondAlgoExecutionService.opposed (turn earlier book) book with
  | .ok level =>
      [BondAlgoExecutionService.marketOrder book (turn earlier book) (int32 (earlier.length + 1))
        level]
  | .error _ => []

/-- The orders for some books. -/
def ordersFor (books : List OrderBook) : List ExecutionOrder := along orderFor [] books

theorem ordersFor_concat (books : List OrderBook) (book : OrderBook) :
    ordersFor (books ++ [book]) = ordersFor books ++ orderFor books book :=
  along_concat orderFor [] books book

/-! ## 3. Risk entries -/

/-- **The risk entries after some trades**: one for every product traded, in order of first
    appearance, with what was traded of it (and what the uninitialised locals held). -/
def riskEntries (uninit : Nat → ℤ) (trades : List Trade) : List PV01 :=
  (trades.map Trade.cusip).eraseDups.map fun cusip =>
    ⟨Bond.ofCusip cusip, bondPV01 cusip,
      netProduct trades cusip + Desk.leftover uninit true trades cusip⟩

/-- A store with the right products in the right quantities is that. -/
theorem eq_riskEntries {uninit : Nat → ℤ} {trades : List Trade} {entries : List PV01}
    (hkeys : entries.map PV01.cusip = (trades.map Trade.cusip).eraseDups)
    (hstore : BondRiskService.RiskStore entries)
    (hproduct : ∀ entry ∈ entries, entry.product = Bond.ofCusip entry.cusip)
    (hquantity : ∀ cusip, BondRiskService.quantityIn entries cusip =
      netProduct trades cusip + Desk.leftover uninit true trades cusip) :
    entries = riskEntries uninit trades := by
  have hentry : ∀ entry ∈ entries, (⟨Bond.ofCusip entry.cusip, bondPV01 entry.cusip,
      netProduct trades entry.cusip + Desk.leftover uninit true trades entry.cusip⟩ : PV01) =
        entry := by
    intro entry he
    rw [← hproduct entry he, ← hstore.fromTable entry he, ← hquantity,
      hstore.quantityIn_eq he]
  rw [riskEntries, ← hkeys, List.map_map]
  exact ((List.map_congr_left (g := id) hentry).trans (List.map_id entries)).symm

/-! ## 4. The stores, flow by flow -/

namespace Desk

variable {uninit : Nat → ℤ}

/-- The stores of the trades after some trades. -/
structure TradesHeld (uninit : Nat → ℤ) (trades : List Trade) (d : Desk) : Prop where
  booked : d.tradeSrv.tradesBook = trades
  accounts : AccountsInv uninit true trades d
  store : BondRiskService.RiskStore d.riskSrv.riskPosition
  products : ∀ entry ∈ d.riskSrv.riskPosition, entry.product = Bond.ofCusip entry.cusip

structure PricesHeld (prices : List Price) (d : Desk) : Prop where
  priced : d.priceSrv.bondPrice = prices
  streams : d.streamingSrv.bondPriceStream = prices.map BondAlgoStreamingService.streamFor

structure BooksHeld (books : List OrderBook) (d : Desk) : Prop where
  stored : d.marketDataSrv.bondOrderbook = books
  ordernum : d.algoExecutionSrv.ordernum = int32 (books.length + 1)
  sides : ∀ cusip, d.algoExecutionSrv.pricingSides.lookup cusip =
    AlgoRun.sideAfter (AlgoRun.booksOf cusip books)
  orders : d.executionSrv.bondOrder = twice (ordersFor books)

structure InquiriesHeld (inquiries : List Inquiry) (d : Desk) : Prop where
  distinct : (inquiries.map Inquiry.inquiryId).Nodup
  done : d.inquirySrv.bondInquiry = inquiries.map BondInquiryConnector.finished

section Congr

variable {d d' : Desk}

theorem TradesHeld.congr {trades : List Trade} (h : TradesHeld uninit trades d)
    (hw : Wired true d') (hsame : d'.services .trades = d.services .trades) :
    TradesHeld uninit trades d' := by
  injection hsame with htrade hposition hrisk hreads
  obtain ⟨hbooked, haccounts, hstore, hproducts⟩ := h
  refine ⟨htrade ▸ hbooked, ⟨hw, hreads ▸ haccounts.reads, ?_, ?_, ?_, ?_⟩, hrisk ▸ hstore,
    hrisk ▸ hproducts⟩
  · exact hposition ▸ haccounts.held
  · exact hposition ▸ haccounts.heldTotal
  · exact hrisk ▸ haccounts.quantity
  · exact hrisk ▸ haccounts.entries

theorem PricesHeld.congr {prices : List Price} (h : PricesHeld prices d)
    (hsame : d'.services .prices = d.services .prices) : PricesHeld prices d' := by
  injection hsame with hprice hstreaming
  exact ⟨hprice ▸ h.priced, hstreaming ▸ h.streams⟩

theorem BooksHeld.congr {books : List OrderBook} (h : BooksHeld books d)
    (hsame : d'.services .books = d.services .books) : BooksHeld books d' := by
  injection hsame with hmarket hexecution halgo
  exact ⟨hmarket ▸ h.stored, halgo ▸ h.ordernum, halgo ▸ h.sides, hexecution ▸ h.orders⟩

theorem InquiriesHeld.congr {inquiries : List Inquiry} (h : InquiriesHeld inquiries d)
    (hsame : d'.services .inquiries = d.services .inquiries) : InquiriesHeld inquiries d' := by
  injection hsame with hinquiry
  exact ⟨h.distinct, hinquiry ▸ h.done⟩

end Congr

section OneMessage

variable {d d' : Desk} (hw : Wired true d)

/-- What the risk service holds, after one trade more. -/
theorem TradesHeld.onTrade {trades : List Trade} (h : TradesHeld uninit trades d) {trade : Trade}
    (hproduct : trade.product = Bond.ofCusip trade.cusip) :
    TradesHeld uninit (trades ++ [trade]) (onTrade uninit trade d) := by
  have haccounts := accountsInv_onTrade h.accounts trade
  have heq := onTrade_eq h.accounts.wired uninit trade
  refine ⟨?_, haccounts, ?_, ?_⟩
  · rw [heq]
    show d.tradeSrv.tradesBook ++ [trade] = _
    rw [h.booked]
  · rw [heq]
    exact BondRiskService.riskStore_updatedWith h.store id _ _
  · rw [heq]
    intro entry hentry
    rcases mem_upsert hentry with hold | ⟨rfl, -⟩ | ⟨old, hold, -, rfl⟩
    · exact h.products entry hold
    · exact hproduct
    · exact h.products old hold

/-- **The risk store is the function of the trades.** -/
theorem TradesHeld.risk {trades : List Trade} (h : TradesHeld uninit trades d) :
    d.riskSrv.riskPosition = riskEntries uninit trades :=
  eq_riskEntries h.accounts.entries h.store h.products h.accounts.quantity

/-- The side the algorithm keeps is the one whose turn it is. -/
theorem BooksHeld.nextSide {books : List OrderBook} (h : BooksHeld books d) (book : OrderBook) :
    d.algoExecutionSrv.nextSide book.cusip = turn books book := by
  rw [BondAlgoExecutionService.nextSide, h.sides, AlgoRun.sideAfter_getD, turn]
  exact if_congr (by omega) rfl rfl

theorem InquiriesHeld.allDone {inquiries : List Inquiry} (h : InquiriesHeld inquiries d) :
    ∀ e ∈ d.inquirySrv.bondInquiry, e.state = .done := by
  intro e he
  rw [h.done] at he
  obtain ⟨e', -, rfl⟩ := List.mem_map.mp he
  rfl

theorem InquiriesHeld.ids {inquiries : List Inquiry} (h : InquiriesHeld inquiries d) :
    d.inquirySrv.bondInquiry.map Inquiry.inquiryId = inquiries.map Inquiry.inquiryId := by
  rw [h.done, List.map_map]
  rfl

include hw

theorem PricesHeld.onPrice {prices : List Price} (h : PricesHeld prices d) (price : Price) :
    PricesHeld (prices ++ [price]) (onPrice price d) := by
  obtain ⟨hprice, hstream⟩ := stores_onPrice hw price
  refine ⟨by rw [hprice, h.priced], ?_⟩
  rw [hstream, h.streams, List.map_append]
  rfl

variable (uninit) in
/-- What the algorithm makes of a book it gets through. -/
theorem BooksHeld.onOrderBook {books : List OrderBook} (h : BooksHeld books d) {book : OrderBook}
    (hd : onOrderBook book d = .done d') :
    BooksHeld (books ++ [book]) d' ∧
      f1Calls uninit (.book book) d = (orderFor books book).map .execution := by
  rw [onOrderBook_any hw] at hd
  split at hd
  · cases hd
  · rename_i algo execution calls hmessage
    obtain ⟨level, order, hlevel, horder, rfl, rfl, rfl⟩ :=
      BondAlgoExecutionService.onMessage_ok hmessage
    rw [h.nextSide] at hlevel horder hd
    rw [h.ordernum] at horder
    have hfor : orderFor books book = [order] := by rw [orderFor, hlevel, horder]
    cases hd
    refine ⟨⟨?_, ?_, ?_, ?_⟩, ?_⟩
    · show d.marketDataSrv.bondOrderbook ++ [book] = _
      rw [h.stored]
    · show int32 (d.algoExecutionSrv.ordernum + 1) = _
      rw [h.ordernum, int32_add, List.length_append]
      rfl
    · intro cusip
      show (d.algoExecutionSrv.pricingSides.insert _ _).lookup cusip = _
      rw [AlgoRun.booksOf_concat]
      by_cases hc : book.cusip = cusip
      · rw [if_pos hc, AlgoRun.sideAfter_succ, ← h.sides, ← hc, AList.lookup_insert,
          ← h.nextSide]
        rfl
      · rw [if_neg hc, AList.lookup_insert_ne (Ne.symm hc), h.sides, Nat.add_zero]
    · show d.executionSrv.bondOrder ++ [order, order] = _
      rw [h.orders, ordersFor_concat, hfor, twice_concat]
    · simp only [f1Calls, hmessage, hfor, hw.execution, if_true]
      rfl

variable (uninit) in
/-- What the connector makes of an inquiry it gets through: its id is new. -/
theorem InquiriesHeld.acceptInquiry {inquiries : List Inquiry} (h : InquiriesHeld inquiries d)
    {inquiry : Inquiry} (hstate : inquiry.state = .received)
    (hd : acceptInquiry inquiry d = .done d') :
    InquiriesHeld (inquiries ++ [inquiry]) d' ∧
      f1Calls uninit (.inquiry inquiry) d = [.inquiry (BondInquiryConnector.finished inquiry)] := by
  have hnew : inquiry.inquiryId ∉ d.inquirySrv.bondInquiry.map Inquiry.inquiryId := by
    intro hknown
    rw [acceptInquiry_any, BondInquiryConnector.accept_known hstate h.allDone hknown] at hd
    cases hd
  refine ⟨⟨?_, ?_⟩, ?_⟩
  · rw [List.map_append, List.map_singleton, List.nodup_append]
    refine ⟨h.distinct, List.nodup_singleton _, fun a ha b hb => ?_⟩
    rw [List.mem_singleton.mp hb]
    exact fun e => hnew (h.ids ▸ e ▸ ha)
  · rw [acceptInquiry_eq hw hstate hnew] at hd
    cases hd
    show d.inquirySrv.bondInquiry ++ [_] = _
    rw [h.done, List.map_append]
    rfl
  · simp only [f1Calls, BondInquiryConnector.accept_fresh hstate hnew, hw.inquiry, if_true]
    rfl

end OneMessage

/-! ## 5. The desk -/

/-- What holds after some messages, flow by flow. -/
structure Held (uninit : Nat → ℤ) (ms : List Message) (d : Desk) : Prop where
  steady : Steady d
  trades : TradesHeld uninit (tradesIn ms) d
  prices : PricesHeld (pricesIn ms) d
  books : BooksHeld (booksIn ms) d
  inquiries : InquiriesHeld (inquiriesIn ms) d

theorem held_wired (uninit : Nat → ℤ) (disk : String → Option (List Item)) :
    Held uninit [] (wired true disk) where
  steady := steady_wired disk
  trades := ⟨rfl, accountsInv_wired uninit true disk, BondRiskService.riskStore_nil,
    fun _ h => by cases h⟩
  prices := ⟨rfl, rfl⟩
  books := ⟨rfl, rfl, fun _ => rfl, rfl⟩
  inquiries := ⟨List.nodup_nil, rfl⟩

/-- What a message should have the services on `f1` write, `pre` being the messages before it. -/
def f1Owed (uninit : Nat → ℤ) (pre : List Message) : Message → List F1Call
  | .trade trade => [.risk (riskEntries uninit (tradesIn pre ++ [trade]))]
  | .price price => [.streaming (BondAlgoStreamingService.streamFor price)]
  | .book book => (orderFor (booksIn pre) book).map .execution
  | .inquiry inquiry => [.inquiry (BondInquiryConnector.finished inquiry)]

/-- What it should have the position service write. -/
def positionsOwed (uninit : Nat → ℤ) (pre : List Message) : Message → List (ℤ × Position)
  | .trade trade => [(uninit (2 * (tradesIn pre).length + 1), .ofTrade trade)]
  | _ => []

section Step

variable {pre : List Message} {m : Message} {d d' : Desk} (h : Held uninit pre d)

include h

/-- The stores of the flows a message does not belong to. -/
theorem Held.other (hd : deliver uninit m d = .done d') :
    (m.flow ≠ .trades → TradesHeld uninit (tradesIn (pre ++ [m])) d') ∧
    (m.flow ≠ .prices → PricesHeld (pricesIn (pre ++ [m])) d') ∧
    (m.flow ≠ .books → BooksHeld (booksIn (pre ++ [m])) d') ∧
    (m.flow ≠ .inquiries → InquiriesHeld (inquiriesIn (pre ++ [m])) d') := by
  have hw' := wired_deliver h.steady.wired hd
  have hsame := (deliver_done h.steady.wired hd).1
  rw [tradesIn_concat, pricesIn_concat, booksIn_concat, inquiriesIn_concat]
  refine ⟨fun hne => ?_, fun hne => ?_, fun hne => ?_, fun hne => ?_⟩
  · have hnone : m.asTrade = none := by cases m <;> first | rfl | exact absurd rfl hne
    rw [hnone, Option.toList_none, List.append_nil]
    exact h.trades.congr hw' (hsame _ hne)
  · have hnone : m.asPrice = none := by cases m <;> first | rfl | exact absurd rfl hne
    rw [hnone, Option.toList_none, List.append_nil]
    exact h.prices.congr (hsame _ hne)
  · have hnone : m.asBook = none := by cases m <;> first | rfl | exact absurd rfl hne
    rw [hnone, Option.toList_none, List.append_nil]
    exact h.books.congr (hsame _ hne)
  · have hnone : m.asInquiry = none := by cases m <;> first | rfl | exact absurd rfl hne
    rw [hnone, Option.toList_none, List.append_nil]
    exact h.inquiries.congr (hsame _ hne)

/-- **One message that gets through keeps it**, and has written what it should. -/
theorem held_deliver (hm : m.AsRead) (hd : deliver uninit m d = .done d') :
    Held uninit (pre ++ [m]) d' ∧ f1Calls uninit m d = f1Owed uninit pre m ∧
      positionCalls uninit m d = positionsOwed uninit pre m := by
  have hw := h.steady.wired
  have hsteady := steady_deliver h.steady hd
  obtain ⟨htrades, hprices, hbooks, hinquiries⟩ := h.other hd
  cases m with
  | trade trade =>
      rw [show (Message.trade trade).flow = .trades from rfl] at hprices hbooks hinquiries
      have hd' := Outcome.done.inj hd
      have hown := h.trades.onTrade hm
      rw [hd'] at hown
      have hrisk := hown.risk
      rw [← hd', onTrade_eq hw] at hrisk
      refine ⟨⟨hsteady, ?_, hprices (by decide), hbooks (by decide), hinquiries (by decide)⟩,
        ?_, ?_⟩
      · rw [tradesIn_concat]
        exact hown
      · exact congrArg (fun entries => [F1Call.risk entries]) hrisk
      · rw [positionCalls, positionsOwed, h.trades.accounts.reads]
        rfl
  | price price =>
      rw [show (Message.price price).flow = .prices from rfl] at htrades hbooks hinquiries
      have hown := h.prices.onPrice hw price
      rw [Outcome.done.inj hd] at hown
      refine ⟨⟨hsteady, htrades (by decide), ?_, hbooks (by decide), hinquiries (by decide)⟩,
        rfl, rfl⟩
      rw [pricesIn_concat]
      exact hown
  | book book =>
      rw [show (Message.book book).flow = .books from rfl] at htrades hprices hinquiries
      obtain ⟨hown, hcalls⟩ := h.books.onOrderBook uninit hw hd
      refine ⟨⟨hsteady, htrades (by decide), hprices (by decide), ?_, hinquiries (by decide)⟩,
        hcalls, rfl⟩
      rw [booksIn_concat]
      exact hown
  | inquiry inquiry =>
      rw [show (Message.inquiry inquiry).flow = .inquiries from rfl] at htrades hprices hbooks
      obtain ⟨hown, hcalls⟩ := h.inquiries.acceptInquiry uninit hw hm hd
      refine ⟨⟨hsteady, htrades (by decide), hprices (by decide), hbooks (by decide), ?_⟩,
        hcalls, rfl⟩
      rw [inquiriesIn_concat]
      exact hown

/-- A message gets through unless it is an inquiry with a known id. -/
theorem Held.goes (hm : m.AsRead)
    (hnew : ∀ inquiry, m = .inquiry inquiry →
      inquiry.inquiryId ∉ (inquiriesIn pre).map Inquiry.inquiryId) :
    ∃ d', deliver uninit m d = .done d' := by
  have hw := h.steady.wired
  cases m with
  | trade trade => exact ⟨_, rfl⟩
  | price price => exact ⟨_, rfl⟩
  | book book =>
      obtain ⟨algo, order, -, hdone⟩ := onOrderBook_eq hw hm
      exact ⟨_, hdone⟩
  | inquiry inquiry =>
      refine ⟨_, acceptInquiry_eq hw hm ?_⟩
      rw [h.inquiries.done, List.map_map]
      exact hnew inquiry rfl

end Step

section Run

variable {disk : String → Option (List Item)} {ms : List Message} {d : Desk}
  (hread : ∀ m ∈ ms, m.AsRead)

include hread

/-- **Messages that got through**: what is held of them, and what they have had written. -/
theorem held_run (hrun : runAll (deliver uninit) ms (wired true disk) = .done d) :
    Held uninit ms d ∧
      outputs (deliver uninit) (f1Calls uninit) ms (wired true disk) =
        along (f1Owed uninit) [] ms ∧
      outputs (deliver uninit) (positionCalls uninit) ms (wired true disk) =
        along (positionsOwed uninit) [] ms := by
  obtain ⟨hf1, hheld⟩ := outputs_eq_along (J := Held uninit) (f := f1Owed uninit)
    (held_wired uninit disk) hrun fun pre m s₁ s₂ hm hJ hd =>
      ⟨(held_deliver hJ (hread m hm) hd).1, (held_deliver hJ (hread m hm) hd).2.1⟩
  obtain ⟨hpositions, -⟩ := outputs_eq_along (J := Held uninit) (f := positionsOwed uninit)
    (held_wired uninit disk) hrun fun pre m s₁ s₂ hm hJ hd =>
      ⟨(held_deliver hJ (hread m hm) hd).1, (held_deliver hJ (hread m hm) hd).2.2⟩
  exact ⟨hheld, hf1, hpositions⟩

variable (uninit disk) in
/-- Messages whose inquiries have distinct ids all get through. -/
theorem runs_of_nodup (hids : ((inquiriesIn ms).map Inquiry.inquiryId).Nodup) :
    ∃ d, runAll (deliver uninit) ms (wired true disk) = .done d := by
  have hrun : ∃ d, runAll (deliver uninit) ms (wired true disk) = .done d ∧ Held uninit ms d := by
    refine runAll_invariant ms (held_wired uninit disk) ?_
    intro pre m post d hms h
    have hm : m.AsRead := hread m (hms ▸ List.mem_append_right _ List.mem_cons_self)
    obtain ⟨d', hd⟩ := h.goes hm fun inquiry hinquiry => by
      subst hinquiry
      have hsplit : inquiriesIn ms = inquiriesIn pre ++ inquiry :: inquiriesIn post := by
        rw [hms, inquiriesIn, List.filterMap_append]
        rfl
      rw [hsplit, List.map_append, List.map_cons, List.nodup_append] at hids
      exact fun hknown => hids.2.2 _ hknown _ List.mem_cons_self rfl
    exact ⟨d', hd, (held_deliver h hm hd).1⟩
  exact hrun.imp fun d h => h.1

end Run

/-- A book, an inquiry for the same bond, and a trade in it. -/
def threeMessages : List Message :=
  [.book BondMarketDataService.quote99, .inquiry ⟨"I1", .ofCusip "912828M72", .buy, 1000, 0, .received⟩,
    .trade purchase]

theorem asRead_threeMessages : ∀ m ∈ threeMessages, m.AsRead := by
  intro m hm
  rcases List.mem_cons.mp hm with rfl | hm
  · exact BondMarketDataService.quoted_quote99.twoSided
  · rcases List.mem_pair.mp hm with rfl | rfl
    · rfl
    · show Bond.ofCusip "912828M72" = Bond.ofCusip (Bond.ofCusip "912828M72").productId
      rw [Bond.productId_ofCusip]

end Desk

end BondTrading
