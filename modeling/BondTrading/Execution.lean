/-
  File:      BondTrading/Execution.lean
  Subject:   EXECUTION ORDERS: the service that stores them (executionservice.hpp) and the
             algorithm that turns order books into them (AlgoExecutionService.hpp,
             BondMarketDataListener.hpp).

  * `BondAlgoExecutionService.onMessage` -- the two branches of the code; `onMessage_eq` is what
    both do: one order against the first level of the other side, stored by `ExecuteOrder` and
    once more by `OnMessage`, and the product's side turned round;
  * `AlgoInv` -- what holds after any books: the order counter, the side kept per product (the
    parity of the product's own books), the store, and what the listeners heard;
  * `algo_run_iff` -- every order can be looked up as long as the doubled store stays within reach
    of the `int` index of `GetData`;
  * `store_once_iff` -- the store holds every order once for no book at all.

  The listeners of the algorithm itself are never told and left out.
-/
import BondTrading.MarketData
import BondTrading.Library.Tables

namespace BondTrading

open Cxx

/-! ## 1. The execution service -/

inductive OrderType where
  | fok | ioc | market | limit | stop
  deriving DecidableEq, Repr

structure ExecutionOrder where
  product : Bond
  side : PricingSide
  orderId : String
  orderType : OrderType
  price : ℚ
  visibleQuantity : ℤ
  hiddenQuantity : ℤ
  parentOrderId : String
  isChildOrder : Bool
  deriving DecidableEq, Repr

structure BondExecutionService (ι : Type) where
  bondOrder : List ExecutionOrder
  listenerList : List ι

namespace BondExecutionService

variable {ι : Type}

def empty : BondExecutionService ι := ⟨[], []⟩

/-- `GetData`, whose index is an `int`; `none` is its `exit(-1)`. -/
def getData (orderId : String) (s : BondExecutionService ι) : Option ExecutionOrder :=
  (intLoop s.bondOrder).find? fun order => order.orderId = orderId

def executeOrder (order : ExecutionOrder) (s : BondExecutionService ι) : BondExecutionService ι :=
  { s with bondOrder := s.bondOrder ++ [order] }

/-- `OnMessage`: execute the order, then tell the listeners. -/
def onMessage (order : ExecutionOrder) (s : BondExecutionService ι) :
    BondExecutionService ι × List (ι × ExecutionOrder) :=
  (s.executeOrder order, notify s.listenerList order)

def addListener (listener : ι) (s : BondExecutionService ι) : BondExecutionService ι :=
  { s with listenerList := s.listenerList ++ [listener] }

end BondExecutionService

/-! ## 2. The algorithm -/

structure BondAlgoExecutionService where
  ordernum : ℤ
  pricingSides : Table String PricingSide

namespace BondAlgoExecutionService

variable {ι : Type}

/-- The constructor. -/
def fresh : BondAlgoExecutionService := ⟨1, ∅⟩

/-- `OnMessage`. The first level of a stack is read before anything is changed. -/
def onMessage (orderbook : OrderBook) (algo : BondAlgoExecutionService)
    (executionService : BondExecutionService ι) :
    Except Stop (BondAlgoExecutionService × BondExecutionService ι × List (ι × ExecutionOrder)) :=
  let productid := orderbook.product.productId
  match algo.pricingSides.lookup productid with
  | none => do
      let bond := Bond.ofCusip productid
      let orderId := "T" ++ toString algo.ordernum
      let level ← firstOrder orderbook.offerStack
      let newOrder : ExecutionOrder :=
        ⟨bond, .bid, orderId, .market, level.price, level.quantity, 0, "NULL", false⟩
      let executionService := executionService.executeOrder newOrder
      let (executionService, calls) := executionService.onMessage newOrder
      .ok (⟨int32 (algo.ordernum + 1), algo.pricingSides.insert productid .offer⟩,
        executionService, calls)
  | some side => do
      let bond := Bond.ofCusip productid
      let orderid := "T" ++ toString algo.ordernum
      let level ← firstOrder
        (if side = .bid then orderbook.offerStack else orderbook.bidStack)
      let newOrder : ExecutionOrder :=
        ⟨bond, side, orderid, .market, level.price, level.quantity, 0, "NULL", false⟩
      let executionService := executionService.executeOrder newOrder
      let (executionService, calls) := executionService.onMessage newOrder
      .ok (⟨int32 (algo.ordernum + 1),
        algo.pricingSides.insert productid (if side = .bid then .offer else .bid)⟩,
        executionService, calls)

/-- The side the next book of a product is answered on. -/
def nextSide (cusip : String) (algo : BondAlgoExecutionService) : PricingSide :=
  (algo.pricingSides.lookup cusip).getD .bid

/-- The level an order on a side is matched with: the best of the other side's stack. -/
def opposed (side : PricingSide) (book : OrderBook) : Except Stop Order :=
  firstOrder (if side = .bid then book.offerStack else book.bidStack)

/-- The market order on a side for one level of a book. -/
def marketOrder (book : OrderBook) (side : PricingSide) (ordernum : ℤ) (level : Order) :
    ExecutionOrder :=
  ⟨Bond.ofCusip book.cusip, side, "T" ++ toString ordernum, .market, level.price, level.quantity,
    0, "NULL", false⟩

/-- **What both branches do**: a first book is one whose side is `BID`. -/
theorem onMessage_eq (book : OrderBook) (algo : BondAlgoExecutionService)
    (execution : BondExecutionService ι) :
    algo.onMessage book execution =
      (opposed (algo.nextSide book.cusip) book).map fun level =>
        let order := marketOrder book (algo.nextSide book.cusip) algo.ordernum level
        (⟨int32 (algo.ordernum + 1), algo.pricingSides.insert book.cusip
            (if algo.nextSide book.cusip = .bid then .offer else .bid)⟩,
          { execution with bondOrder := execution.bondOrder ++ [order, order] },
          notify execution.listenerList order) := by
  unfold onMessage nextSide opposed OrderBook.cusip
  cases h : algo.pricingSides.lookup book.product.productId with
  | none =>
      simp only [h, Option.getD_none, if_true]
      cases firstOrder book.offerStack with
      | error why => rfl
      | ok level =>
          simp [bind, Except.bind, Except.map, BondExecutionService.executeOrder,
            BondExecutionService.onMessage, marketOrder, OrderBook.cusip]
  | some side =>
      simp only [h, Option.getD_some]
      cases firstOrder (if side = .bid then book.offerStack else book.bidStack) with
      | error why => rfl
      | ok level =>
          simp [bind, Except.bind, Except.map, BondExecutionService.executeOrder,
            BondExecutionService.onMessage, marketOrder, OrderBook.cusip]

/-- Both stacks of the book have a first level, so the one that is read has. -/
theorem opposed_ok {book : OrderBook} (h : book.TwoSided) (side : PricingSide) :
    ∃ level, opposed side book = .ok level ∧
      (if side = .bid then book.offerStack else book.bidStack).head? = some level := by
  obtain ⟨hb, ho⟩ := h
  obtain ⟨b, bs, hbs⟩ := List.exists_cons_of_ne_nil hb
  obtain ⟨o, os, hos⟩ := List.exists_cons_of_ne_nil ho
  cases side with
  | bid => exact ⟨o, by simp [opposed, hos, firstOrder], by simp [hos]⟩
  | offer => exact ⟨b, by simp [opposed, hbs, firstOrder], by simp [hbs]⟩

/-- **`OnMessage` on a two-sided book**: one market order, stored two times and told once. -/
theorem onMessage_twoSided {book : OrderBook} (h : book.TwoSided) (algo : BondAlgoExecutionService)
    (execution : BondExecutionService ι) :
    ∃ level order,
      (if algo.nextSide book.cusip = .bid then book.offerStack else book.bidStack).head? =
        some level ∧
      order = marketOrder book (algo.nextSide book.cusip) algo.ordernum level ∧
      algo.onMessage book execution =
        .ok (⟨int32 (algo.ordernum + 1), algo.pricingSides.insert book.cusip
              (if algo.nextSide book.cusip = .bid then .offer else .bid)⟩,
            { execution with bondOrder := execution.bondOrder ++ [order, order] },
            notify execution.listenerList order) := by
  obtain ⟨level, hlevel, hhead⟩ := opposed_ok h (algo.nextSide book.cusip)
  refine ⟨level, _, hhead, rfl, ?_⟩
  rw [onMessage_eq, hlevel]
  rfl

end BondAlgoExecutionService

/-- `MarketDataListener::ProcessAdd`. -/
def MarketDataListener.processAdd {ι : Type} (orderbook : OrderBook)
    (algo : BondAlgoExecutionService) (executionService : BondExecutionService ι) :
    Except Stop (BondAlgoExecutionService × BondExecutionService ι × List (ι × ExecutionOrder)) :=
  algo.onMessage orderbook executionService

/-! ## 3. Runs -/

/-- The two services, and every call the listeners of the execution service have had so far. -/
structure AlgoRun (ι : Type) where
  algo : BondAlgoExecutionService
  execution : BondExecutionService ι
  heard : List (ι × ExecutionOrder)

/-- The way a book comes in: a call of `OnMessage`, or one of the market data listener. -/
inductive Feed where
  | onMessage (book : OrderBook)
  | processAdd (book : OrderBook)
  deriving DecidableEq, Repr

def Feed.book : Feed → OrderBook
  | .onMessage book => book
  | .processAdd book => book

namespace AlgoRun

open BondMarketDataService (quote99 quoted_quote99)

variable {ι : Type}

/-- A fresh algorithm over an empty execution service with the given listeners. -/
def start (listeners : List ι) : AlgoRun ι := ⟨.fresh, ⟨[], listeners⟩, []⟩

def step (feed : Feed) (s : AlgoRun ι) : Outcome (AlgoRun ι) :=
  let result := match feed with
    | .onMessage book => s.algo.onMessage book s.execution
    | .processAdd book => MarketDataListener.processAdd book s.algo s.execution
  match result with
  | .error why => .stopped why s
  | .ok (algo, execution, calls) => .done ⟨algo, execution, s.heard ++ calls⟩

/-- How many books of a product there are. -/
def booksOf (cusip : String) (books : List OrderBook) : Nat :=
  books.countP fun book => book.cusip = cusip

/-- The side kept for a product after `n` of its books: none before the first one, then `OFFER`
    and `BID` in turn. -/
def sideAfter (n : Nat) : Option PricingSide :=
  if n = 0 then none else if n % 2 = 1 then some .offer else some .bid

/-- **The order for one book**, `earlier` being the books before it: with `n` books of its product
    up to and with this one, a bid at the first offer for an odd `n`, an offer at the first bid for
    an even one. -/
structure Crosses (earlier : List OrderBook) (book : OrderBook) (order : ExecutionOrder) : Prop where
  product : order.product = Bond.ofCusip book.cusip
  odd : (booksOf book.cusip earlier + 1) % 2 = 1 → order.side = .bid ∧
    ∃ level, book.offerStack.head? = some level ∧ order.price = level.price ∧
      order.visibleQuantity = level.quantity
  even : (booksOf book.cusip earlier + 1) % 2 = 0 → order.side = .offer ∧
    ∃ level, book.bidStack.head? = some level ∧ order.price = level.price ∧
      order.visibleQuantity = level.quantity

/-- **The invariant of the algorithm**: its counter, the parity of every product, one order for each
    book so far, each order stored two times and told once to every listener. -/
structure AlgoInv (listeners : List ι) (books : List OrderBook) (orders : List ExecutionOrder)
    (s : AlgoRun ι) : Prop where
  ordernum : s.algo.ordernum = int32 (books.length + 1)
  sides : ∀ cusip, s.algo.pricingSides.lookup cusip = sideAfter (booksOf cusip books)
  stored : s.execution.bondOrder = twice orders
  listening : s.execution.listenerList = listeners
  heard : s.heard = orders.flatMap (notify listeners)
  length : orders.length = books.length
  ids : ∀ (k : Nat) order, orders[k]? = some order →
    order.orderId = "T" ++ toString (int32 (k + 1))
  crosses : ∀ k book order, books[k]? = some book → orders[k]? = some order →
    Crosses (books.take k) book order

theorem algoInv_start (listeners : List ι) : AlgoInv listeners [] [] (start listeners) where
  ordernum := rfl
  sides _ := rfl
  stored := rfl
  listening := rfl
  heard := rfl
  length := rfl
  ids _ _ h := by cases h
  crosses _ _ _ h := by cases h

theorem booksOf_concat (cusip : String) (books : List OrderBook) (book : OrderBook) :
    booksOf cusip (books ++ [book]) = booksOf cusip books + if book.cusip = cusip then 1 else 0 := by
  simp [booksOf, List.countP_append, List.countP_cons]

/-- The side after one more book is the other one. -/
theorem sideAfter_succ (n : Nat) :
    sideAfter (n + 1) = some (if (sideAfter n).getD .bid = .bid then .offer else .bid) := by
  unfold sideAfter
  by_cases h0 : n = 0
  · subst h0; rfl
  · rcases Nat.mod_two_eq_zero_or_one n with h | h
    · have h' : (n + 1) % 2 = 1 := by omega
      simp [h0, h, h']
    · have h' : ¬ (n + 1) % 2 = 1 := by omega
      simp [h0, h, h']

/-- The side a book is answered on: `BID` for the odd ones of its product. -/
theorem sideAfter_getD (n : Nat) :
    (sideAfter n).getD .bid = if (n + 1) % 2 = 1 then .bid else .offer := by
  unfold sideAfter
  by_cases h0 : n = 0
  · subst h0; rfl
  · rcases Nat.mod_two_eq_zero_or_one n with h | h
    · have h' : (n + 1) % 2 = 1 := by omega
      simp [h0, h, h']
    · have h' : ¬ (n + 1) % 2 = 1 := by omega
      simp [h0, h, h']

/-- Both ways in are the same call. -/
theorem step_eq (feed : Feed) (s : AlgoRun ι) :
    step feed s =
      match s.algo.onMessage feed.book s.execution with
      | .error why => .stopped why s
      | .ok (algo, execution, calls) => .done ⟨algo, execution, s.heard ++ calls⟩ := by
  cases feed <;> rfl

/-- **One two-sided book keeps the invariant**, with one order more. -/
theorem algoInv_step {listeners : List ι} {books : List OrderBook} {orders : List ExecutionOrder}
    {s : AlgoRun ι} (h : AlgoInv listeners books orders s) {feed : Feed}
    (htwo : feed.book.TwoSided) :
    ∃ s' order, step feed s = .done s' ∧
      AlgoInv listeners (books ++ [feed.book]) (orders ++ [order]) s' := by
  obtain ⟨level, order, hhead, horder, hmessage⟩ :=
    BondAlgoExecutionService.onMessage_twoSided htwo s.algo s.execution
  have hside : s.algo.nextSide feed.book.cusip =
      if (booksOf feed.book.cusip books + 1) % 2 = 1 then .bid else .offer := by
    rw [BondAlgoExecutionService.nextSide, h.sides, sideAfter_getD]
  refine ⟨_, order, by rw [step_eq, hmessage], ?_⟩
  subst horder
  refine { ordernum := ?_, sides := ?_, stored := ?_, listening := h.listening, heard := ?_,
           length := ?_, ids := ?_, crosses := ?_ }
  · show int32 (s.algo.ordernum + 1) = _
    rw [h.ordernum, int32_add, List.length_append]
    rfl
  · intro cusip
    show (s.algo.pricingSides.insert _ _).lookup cusip = _
    rw [booksOf_concat]
    by_cases hc : feed.book.cusip = cusip
    · rw [if_pos hc, sideAfter_succ, ← hc, AList.lookup_insert, ← h.sides]
      rfl
    · rw [if_neg hc, AList.lookup_insert_ne (Ne.symm hc), h.sides, Nat.add_zero]
  · show s.execution.bondOrder ++ [_, _] = _
    rw [h.stored, twice_concat]
  · show s.heard ++ notify s.execution.listenerList _ = _
    rw [h.heard, h.listening, List.flatMap_append, List.flatMap_singleton]
  · simp [h.length]
  · intro k order hk
    rcases getElem?_concat hk with hk | ⟨rfl, rfl⟩
    · exact h.ids k order hk
    · show "T" ++ toString s.algo.ordernum = _
      rw [h.ordernum, h.length]
  · refine pairs_concat h.length h.crosses ?_
    rw [hside] at hhead
    refine ⟨rfl, fun hodd => ⟨?_, level, ?_, rfl, rfl⟩, fun heven => ⟨?_, level, ?_, rfl, rfl⟩⟩
    · exact hside.trans (if_pos hodd)
    · simpa [hodd] using hhead
    · exact hside.trans (if_neg (by omega))
    · simpa [heven] using hhead

/-- **The invariant holds after any two-sided books.** -/
theorem algoInv_run (listeners : List ι) (feeds : List Feed)
    (htwo : ∀ feed ∈ feeds, feed.book.TwoSided) :
    ∃ s, runAll step feeds (start listeners) = .done s ∧
      ∃ orders, AlgoInv listeners (feeds.map Feed.book) orders s := by
  refine runAll_invariant (I := fun pre s =>
    ∃ orders, AlgoInv listeners (pre.map Feed.book) orders s) feeds
    ⟨[], algoInv_start listeners⟩ ?_
  intro pre feed post s hfeeds hinv
  obtain ⟨orders, h⟩ := hinv
  subst hfeeds
  obtain ⟨s', order, hs, h'⟩ := algoInv_step h (htwo feed (by simp))
  refine ⟨s', hs, orders ++ [order], ?_⟩
  rw [List.map_append, List.map_singleton]
  exact h'

/-! ## 4. Looking an order up -/

section Lookup

variable {listeners : List ι} {books : List OrderBook} {orders : List ExecutionOrder}
  {s : AlgoRun ι}

/-- Below 2^31 books the counter has not turned over. -/
theorem AlgoInv.orderId (h : AlgoInv listeners books orders s) (hlen : books.length < 2147483648)
    {k : Nat} {order : ExecutionOrder} (hk : orders[k]? = some order) :
    order.orderId = "T" ++ Nat.repr (k + 1) := by
  have hlt : k < orders.length := (List.getElem?_eq_some_iff.mp hk).1
  have hcounter : int32 ((k : Int) + 1) = (k : Int) + 1 := by
    rw [h.length] at hlt
    exact int32_eq (by omega) (by omega)
  rw [h.ids k order hk, hcounter]
  rfl

theorem AlgoInv.ids_nodup (h : AlgoInv listeners books orders s)
    (hlen : books.length < 2147483648) : (orders.map ExecutionOrder.orderId).Nodup := by
  rw [List.nodup_iff_getElem?_ne_getElem?]
  intro i j hij hj he
  rw [List.length_map] at hj
  have hi := List.getElem?_eq_getElem (hij.trans hj)
  have hj := List.getElem?_eq_getElem hj
  rw [List.getElem?_map, List.getElem?_map, hi, hj, Option.map_some, Option.map_some,
    Option.some.injEq, h.orderId hlen hi, h.orderId hlen hj, String.append_right_inj,
    repr_inj] at he
  omega

/-- **`GetData` and the doubled store**: the `int` index ends in the middle of the pairs. -/
theorem AlgoInv.getData (h : AlgoInv listeners books orders s) (orderId : String) :
    s.execution.getData orderId =
      (orders.take 1073741824).find? fun order => order.orderId = orderId := by
  rw [BondExecutionService.getData, h.stored]
  show List.find? _ ((twice orders).take (2 * 1073741824)) = _
  rw [take_twice, find?_twice]

/-- The k-th order is found as long as its pair is within reach, and never after that. -/
theorem AlgoInv.getData_iff (h : AlgoInv listeners books orders s)
    (hlen : books.length < 2147483648) {k : Nat} {order : ExecutionOrder}
    (hk : orders[k]? = some order) :
    s.execution.getData ("T" ++ Nat.repr (k + 1)) = some order ↔ k < 1073741824 := by
  have hid := h.orderId hlen hk
  rw [h.getData, ← hid]
  constructor
  · intro hfind
    obtain ⟨j, hj⟩ := List.mem_iff_getElem?.mp (List.mem_of_find?_eq_some hfind)
    rw [List.getElem?_take] at hj
    split_ifs at hj with hlt
    have hkj : k = j := by
      have he := (h.orderId hlen hj).symm.trans hid
      rw [String.append_right_inj, repr_inj] at he
      omega
    omega
  · intro hlt
    refine find?_eq_getElem? (k := k) ?_ (by rw [List.getElem?_take_of_lt hlt, hk])
    rw [List.map_take]
    exact (h.ids_nodup hlen).sublist (List.take_sublist _ _)

end Lookup

/-- **What the algorithm promises**: one order for every book, told to every listener in the order
    of the books, numbered, on the side its product's turn asks for, and found under its id. -/
def Alternates (listeners : List ι) (books : List OrderBook) (s : AlgoRun ι) : Prop :=
  ∃ orders : List ExecutionOrder, orders.length = books.length ∧
    s.heard = orders.flatMap (notify listeners) ∧
    ∀ (k : Nat) book order, books[k]? = some book → orders[k]? = some order →
      order.orderId = "T" ++ Nat.repr (k + 1) ∧ Crosses (books.take k) book order ∧
      s.execution.getData ("T" ++ Nat.repr (k + 1)) = some order

/-- The promise and the number of books: the store is twice as long as the orders. -/
theorem AlgoInv.alternates_iff {listeners : List ι} {books : List OrderBook}
    {orders : List ExecutionOrder} {s : AlgoRun ι} (h : AlgoInv listeners books orders s)
    (hlen : books.length < 2147483648) :
    Alternates listeners books s ↔ books.length ≤ 1073741824 := by
  constructor
  · intro halt
    obtain ⟨orders', hlength, -, hall⟩ := halt
    by_contra hgt
    -- the first order beyond the reach of the index
    have hb := List.getElem?_eq_getElem (l := books) (i := 1073741824) (by omega)
    have ho' := List.getElem?_eq_getElem (l := orders') (i := 1073741824) (by omega)
    have ho := List.getElem?_eq_getElem (l := orders) (i := 1073741824) (by rw [h.length]; omega)
    have hfound := (hall _ _ _ hb ho').2.2
    rw [h.getData] at hfound
    obtain ⟨j, hj⟩ := List.mem_iff_getElem?.mp (List.mem_of_find?_eq_some hfound)
    rw [List.getElem?_take] at hj
    split_ifs at hj with hlt
    have hid := List.find?_some hfound
    rw [decide_eq_true_eq, h.orderId hlen hj, String.append_right_inj, repr_inj] at hid
    omega
  · intro hle
    refine ⟨orders, h.length, h.heard, fun k book order hb ho => ⟨h.orderId hlen ho,
      h.crosses k book order hb ho, (h.getData_iff hlen ho).mpr ?_⟩⟩
    have hk := (List.getElem?_eq_some_iff.mp hb).1
    omega

/-- **The algorithm keeps its promise exactly up to 2^30 books**: every order is stored twice, so
    later ones lie where the `int` index of `GetData` does not get. -/
theorem algo_run_iff (listeners : List ι) (feeds : List Feed)
    (htwo : ∀ feed ∈ feeds, feed.book.TwoSided) (hlen : feeds.length < 2147483648) :
    (∃ s, runAll step feeds (start listeners) = .done s ∧
      Alternates listeners (feeds.map Feed.book) s) ↔ feeds.length ≤ 1073741824 := by
  obtain ⟨s, hs, orders, hinv⟩ := algoInv_run listeners feeds htwo
  have hlength : (feeds.map Feed.book).length = feeds.length := List.length_map _
  have hiff := hinv.alternates_iff (hlength.symm ▸ hlen)
  rw [hlength] at hiff
  constructor
  · intro hrun
    obtain ⟨s', hs', halt⟩ := hrun
    have hsame : s = s' := Outcome.done.inj (hs.symm.trans hs')
    exact hiff.mp (hsame ▸ halt)
  · exact fun hle => ⟨s, hs, hiff.mpr hle⟩

/-- Two books of one product, fed in both ways. -/
theorem algo_run_iff_two :
    (∃ s, runAll step [.onMessage quote99, .processAdd quote99] (start ["log"]) = .done s ∧
      Alternates ["log"] [quote99, quote99] s) ↔
    [Feed.onMessage quote99, Feed.processAdd quote99].length ≤ 1073741824 :=
  algo_run_iff ["log"] [.onMessage quote99, .processAdd quote99]
    (fun feed hf => by
      rcases List.mem_pair.mp hf with rfl | rfl
      · exact quoted_quote99.twoSided
      · exact quoted_quote99.twoSided)
    (by decide)

/-- 2^30 + 1 copies of a book: the last order cannot be looked up. -/
theorem algo_run_replicate :
    ¬ ∃ s, runAll step (List.replicate 1073741825 (Feed.onMessage quote99)) (start ["log"]) =
        .done s ∧
      Alternates ["log"] ((List.replicate 1073741825 (Feed.onMessage quote99)).map Feed.book) s := by
  intro hrun
  obtain ⟨s, hs, halt⟩ := hrun
  obtain ⟨s', hs', orders, hinv⟩ := algoInv_run ["log"]
    (List.replicate 1073741825 (Feed.onMessage quote99)) fun feed hf => by
      rw [List.eq_of_mem_replicate hf]
      exact quoted_quote99.twoSided
  have hsame : s' = s := Outcome.done.inj (hs'.symm.trans hs)
  subst hsame
  have hlength : ((List.replicate 1073741825 (Feed.onMessage quote99)).map Feed.book).length =
      1073741825 := by rw [List.length_map, List.length_replicate]
  have hle := (hinv.alternates_iff (by rw [hlength]; omega)).mp halt
  rw [hlength] at hle
  omega

/-! ## 5. The store -/

/-- One entry per book, in order. -/
def RecordedOnce (books : List OrderBook) (s : AlgoRun ι) : Prop :=
  s.execution.bondOrder.length = books.length ∧
    ∀ (k : Nat) book order, books[k]? = some book → s.execution.bondOrder[k]? = some order →
      Crosses (books.take k) book order

/-- No id is stored twice. -/
def DistinctIds (s : AlgoRun ι) : Prop :=
  (s.execution.bondOrder.map ExecutionOrder.orderId).Nodup

/-- What is stored is what the listeners were told. -/
def StoredIsHeard (s : AlgoRun ι) : Prop :=
  s.heard = s.execution.bondOrder.flatMap (notify s.execution.listenerList)

theorem length_flatMap_notify (listeners : List ι) (orders : List ExecutionOrder) :
    (orders.flatMap (notify listeners)).length = orders.length * listeners.length := by
  simp [List.length_flatMap, notify]

/-- **Every order is stored two times**, so the store is right as long as there is none: in each
    of the three readings of `recorded once`. -/
theorem store_once_iff (listeners : List ι) (feeds : List Feed)
    (htwo : ∀ feed ∈ feeds, feed.book.TwoSided) :
    ∃ s, runAll step feeds (start listeners) = .done s ∧
      (RecordedOnce (feeds.map Feed.book) s ↔ feeds = []) ∧ (DistinctIds s ↔ feeds = []) ∧
      (listeners ≠ [] → (StoredIsHeard s ↔ feeds = [])) := by
  obtain ⟨s, hs, orders, h⟩ := algoInv_run listeners feeds htwo
  have hlen : orders.length = feeds.length := by rw [h.length, List.length_map]
  have hnil : feeds = [] ↔ orders = [] := by
    rw [← List.length_eq_zero_iff, ← List.length_eq_zero_iff, hlen]
  refine ⟨s, hs, ?_, ?_, fun hne => ?_⟩
  · rw [RecordedOnce, h.stored, length_twice, hlen, List.length_map]
    constructor
    · intro ⟨he, _⟩
      exact List.length_eq_zero_iff.mp (by omega)
    · rintro rfl
      exact ⟨rfl, fun k book order hb _ => by cases hb⟩
  · rw [DistinctIds, h.stored, hnil]
    cases orders with
    | nil => simp [twice]
    | cons order orders => simp [twice]
  · rw [StoredIsHeard, h.heard, h.stored, h.listening, hnil]
    have hpos : 0 < listeners.length := List.length_pos_iff.mpr hne
    constructor
    · intro he
      have hl := congrArg List.length he
      rw [length_flatMap_notify, length_flatMap_notify, length_twice] at hl
      have := Nat.eq_of_mul_eq_mul_right hpos hl
      exact List.length_eq_zero_iff.mp (by omega)
    · rintro rfl
      rfl

/-- The theorem at one book, fed through the listener. -/
theorem store_once_iff_one :
    ∃ s, runAll step [.processAdd quote99] (start ["log"]) = .done s ∧
      (RecordedOnce [quote99] s ↔ [Feed.processAdd quote99] = []) ∧
      (DistinctIds s ↔ [Feed.processAdd quote99] = []) ∧
      (["log"] ≠ [] → (StoredIsHeard s ↔ [Feed.processAdd quote99] = [])) :=
  store_once_iff ["log"] [.processAdd quote99] fun feed hf => by
    rw [List.mem_singleton.mp hf]
    exact quoted_quote99.twoSided

/-- One book: its order is told once and stored two times. -/
theorem stored_two_times :
    ∃ s, runAll step [.onMessage quote99] (start ["log"]) = .done s ∧
      s.heard.map (fun call => call.2.orderId) = ["T1"] ∧
      s.execution.bondOrder.map ExecutionOrder.orderId = ["T1", "T1"] ∧
      ¬ RecordedOnce [quote99] s ∧ ¬ DistinctIds s ∧ ¬ StoredIsHeard s := by
  refine ⟨_, rfl, by decide, by decide, fun h => absurd h.1 (by decide), ?_, ?_⟩
  · intro h
    exact absurd (show (["T1", "T1"] : List String).Nodup from h) (by decide)
  · intro h
    exact absurd (congrArg List.length h) (by decide)

end AlgoRun

end BondTrading
