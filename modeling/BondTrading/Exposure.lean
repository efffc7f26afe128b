/-
  File:      BondTrading/Exposure.lean
  Subject:   WHAT THE ALGORITHM STANDS TO HOLD: buying and selling in turn, it is flat after every
             second book of a product.

  * `exposure` -- bought minus sold, of the orders for a product;
  * `exposure_ordersFor` -- of the algorithm's orders, if all books offer the same quantity;
  * `main_exposure` -- in the order store after any run of `main`, which holds every order twice.
-/
import BondTrading.AnyInput

namespace BondTrading

open Cxx

/-! ## 1. Orders -/

/-- What an order adds to the position in its product: its quantity, negative for one that sells. -/
def ExecutionOrder.signed (order : ExecutionOrder) : ℤ :=
  if order.side = .bid then order.visibleQuantity else -order.visibleQuantity

/-- **The exposure in a product**: bought minus sold. -/
def exposure (orders : List ExecutionOrder) (cusip : String) : ℤ :=
  ((orders.filter fun order => order.product.productId = cusip).map ExecutionOrder.signed).sum

theorem exposure_append (orders orders' : List ExecutionOrder) (cusip : String) :
    exposure (orders ++ orders') cusip = exposure orders cusip + exposure orders' cusip := by
  simp [exposure]

theorem exposure_singleton (order : ExecutionOrder) (cusip : String) :
    exposure [order] cusip = if order.product.productId = cusip then order.signed else 0 := by
  unfold exposure
  split_ifs with h <;> simp [h]

/-- A store that holds every order twice. -/
theorem exposure_twice (orders : List ExecutionOrder) (cusip : String) :
    exposure (twice orders) cusip = 2 * exposure orders cusip := by
  induction orders using List.reverseRecOn with
  | nil => rfl
  | append_singleton orders order ih =>
      have hpair : [order, order] = [order] ++ [order] := rfl
      rw [twice_concat, hpair, exposure_append, exposure_append, exposure_append, ih]
      ring

/-! ## 2. The algorithm's orders -/

/-- Both sides of the book start with the same quantity. -/
structure OrderBook.Offers (q : ℤ) (book : OrderBook) : Prop where
  twoSided : book.TwoSided
  quantity : ∀ level, (book.bidStack.head? = some level ∨ book.offerStack.head? = some level) →
    level.quantity = q

/-- The order for such a book: a purchase when `BID` has its turn, and a sale otherwise. -/
theorem orderFor_offers {q : ℤ} {book : OrderBook} (h : book.Offers q) (earlier : List OrderBook) :
    ∃ order, orderFor earlier book = [order] ∧ order.product.productId = book.cusip ∧
      order.signed = if AlgoRun.booksOf book.cusip earlier % 2 = 0 then q else -q := by
  obtain ⟨level, hlevel, hhead⟩ := BondAlgoExecutionService.opposed_ok h.twoSided
    (turn earlier book)
  have hquantity : level.quantity = q := by
    refine h.quantity level ?_
    split_ifs at hhead
    · exact Or.inr hhead
    · exact Or.inl hhead
  refine ⟨BondAlgoExecutionService.marketOrder book (turn earlier book)
    (int32 (earlier.length + 1)) level, ?_, Bond.productId_ofCusip _, ?_⟩
  · rw [orderFor, hlevel]
  · show (if turn earlier book = .bid then level.quantity else -level.quantity) = _
    rw [hquantity, turn]
    split_ifs <;> first | rfl | contradiction

/-- **The algorithm is flat after every second book of a product**, and holds one book's quantity in
    between. -/
theorem exposure_ordersFor {q : ℤ} {books : List OrderBook} (h : ∀ book ∈ books, book.Offers q)
    (cusip : String) :
    exposure (ordersFor books) cusip = q * (AlgoRun.booksOf cusip books % 2 : Nat) := by
  induction books using List.reverseRecOn with
  | nil => simp [ordersFor, along, exposure, AlgoRun.booksOf]
  | append_singleton books book ih =>
      obtain ⟨order, horder, hproduct, hsigned⟩ :=
        orderFor_offers (h book (List.mem_append_right _ List.mem_cons_self)) books
      rw [ordersFor_concat, exposure_append, horder, exposure_singleton, hproduct, hsigned,
        ih fun b hb => h b (List.mem_append_left _ hb), AlgoRun.booksOf_concat]
      by_cases hc : book.cusip = cusip
      · subst hc
        rw [if_pos rfl, if_pos rfl]
        -- one book more: from flat to `q`, or back
        rcases Nat.mod_two_eq_zero_or_one (AlgoRun.booksOf book.cusip books) with hpar | hpar
        · have hnext : (AlgoRun.booksOf book.cusip books + 1) % 2 = 1 := by omega
          rw [if_pos hpar, hpar, hnext]
          simp
        · have hnext : (AlgoRun.booksOf book.cusip books + 1) % 2 = 0 := by omega
          rw [if_neg (by omega), hpar, hnext]
          simp
      · rw [if_neg hc, if_neg hc, Nat.add_zero, add_zero]

/-! ## 3. Runs -/

/-- The books of marketdata.txt start with 10 million on both sides. -/
theorem bookAround_offers (product : Bond) (midPrice : ℚ) :
    (BondMarketDataConnector.bookAround product midPrice).Offers 10000000 where
  twoSided := BondMarketDataConnector.bookAround_twoSided product midPrice
  quantity level hlevel := by
    rcases hlevel with hlevel | hlevel
    · exact Option.some.inj hlevel ▸ rfl
    · exact Option.some.inj hlevel ▸ rfl

namespace Desk

/-- Every book that the files hold was made around a mid. -/
theorem bookAround_script {files : String → Option String} {book : OrderBook}
    (h : book ∈ booksIn (script files).messages) :
    ∃ cusip midPrice,
      book = BondMarketDataConnector.bookAround (Bond.ofCusip cusip) midPrice := by
  obtain ⟨m, hm, hasBook⟩ := List.mem_filterMap.mp h
  have hmem := messages_script_sublist.subset hm
  simp only [List.mem_append, List.mem_map] at hmem
  rcases hmem with ⟨b, hb, rfl⟩ | ⟨_, -, rfl⟩ | ⟨_, -, rfl⟩ | ⟨_, -, rfl⟩
  · obtain rfl := Option.some.inj hasBook
    obtain ⟨record, hrecord⟩ := Script.mem_ofFile rfl hb
    obtain ⟨cusip, price, midPrice, -, -, -, rfl⟩ := BondMarketDataConnector.decode_reads hrecord
    exact ⟨cusip, midPrice, rfl⟩
  · cases hasBook
  · cases hasBook
  · cases hasBook

theorem booksIn_taken_subset (files : String → Option String) :
    booksIn (taken files) ⊆ booksIn (script files).messages :=
  ((taken_isPrefix files).sublist.filterMap _).subset

/-- **The exposure after any run of `main`**, on any files and however it ends: in the order store a
    product stands at 20 million (10 million, stored twice) after an odd number of its books, and at
    nothing after an even one. -/
theorem main_exposure (uninit : Nat → ℤ) (files : String → Option String)
    (disk : String → Option (List Item)) (cusip : String) :
    exposure (main uninit files disk).state.executionSrv.bondOrder cusip =
      20000000 * (AlgoRun.booksOf cusip
        (main uninit files disk).state.marketDataSrv.bondOrderbook % 2 : Nat) := by
  obtain ⟨d, inquirySrv, -, hheld, hstate⟩ := state_main uninit files disk
  have hoffers : ∀ book ∈ booksIn (taken files), book.Offers 10000000 := by
    intro book hbook
    obtain ⟨cusip, midPrice, rfl⟩ := bookAround_script (booksIn_taken_subset files hbook)
    exact bookAround_offers _ _
  rw [hstate]
  show exposure d.executionSrv.bondOrder cusip =
    20000000 * (AlgoRun.booksOf cusip d.marketDataSrv.bondOrderbook % 2 : Nat)
  rw [hheld.books.orders, hheld.books.stored, exposure_twice, exposure_ordersFor hoffers]
  ring

end Desk

end BondTrading
