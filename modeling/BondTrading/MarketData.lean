/-
  File:      BondTrading/MarketData.lean
  Subject:   ORDER BOOKS AND THE SERVICE THAT DISTRIBUTES THEM (marketdataservice.hpp).

  The connector builds five levels on each side of the mid; its spread `double(1/256)` is an
  integer division.

  * `BondMarketDataService.getBestBidOffer` -- a running maximum and a running minimum over the books
    of a product, both from 0;
  * `getBestBidOffer_run` -- what they come to: the best first bid, and 0;
  * `getBestBidOffer_never` -- so the answer is the best bid and offer for no books at all;
  * `lastTold_told`, `current_iff` -- a listener has been told the latest book of a product, and the
    lookup answers that one only if it is like the first.
-/
import BondTrading.PriceText
import Mathlib.Order.Bounds.Defs

namespace BondTrading

open Cxx

inductive PricingSide where
  | bid | offer
  deriving DecidableEq, Repr

/-- One level of a stack. -/
structure Order where
  price : ℚ
  quantity : ℤ
  side : PricingSide
  deriving DecidableEq, Repr

structure OrderBook where
  product : Bond
  bidStack : List Order
  offerStack : List Order
  deriving DecidableEq, Repr

def OrderBook.cusip (book : OrderBook) : String := book.product.productId

/-- Both stacks have a best level. -/
def OrderBook.TwoSided (book : OrderBook) : Prop := book.bidStack ≠ [] ∧ book.offerStack ≠ []

/-- `stack[0]`: undefined on an empty stack. -/
def firstOrder (stack : List Order) : Except Stop Order :=
  match stack with
  | [] => .error .undefined
  | order :: _ => .ok order

/-! ## 1. The service -/

structure BondMarketDataService (ι : Type) where
  bondOrderbook : List OrderBook
  listenerList : List ι

namespace BondMarketDataService

variable {ι : Type}

def empty : BondMarketDataService ι := ⟨[], []⟩

/-- `GetData`; `none` is its `exit(-1)`. -/
def getData (cusip : String) (s : BondMarketDataService ι) : Option OrderBook :=
  s.bondOrderbook.find? fun book => book.cusip = cusip

/-- `OnMessage`: store the book, then tell the listeners. -/
def onMessage (book : OrderBook) (s : BondMarketDataService ι) :
    BondMarketDataService ι × List (ι × OrderBook) :=
  ({ s with bondOrderbook := s.bondOrderbook ++ [book] }, notify s.listenerList book)

def addListener (listener : ι) (s : BondMarketDataService ι) : BondMarketDataService ι :=
  { s with listenerList := s.listenerList ++ [listener] }

end BondMarketDataService

/-! ## 2. The best bid and offer -/

structure BidOffer where
  bidOrder : Order
  offerOrder : Order
  deriving DecidableEq, Repr

/-- The three locals of `GetBestBidOffer`. -/
structure BestSoFar where
  bestBid : ℚ
  bestOffer : ℚ
  found : Bool
  deriving DecidableEq, Repr

namespace BondMarketDataService

variable {ι : Type}

/-- The body of the loop of `GetBestBidOffer`. -/
def bestStep (cusip : String) (best : BestSoFar) (book : OrderBook) : Except Stop BestSoFar :=
  if book.cusip = cusip then do
    let currentBid ← firstOrder book.bidStack
    let currentOffer ← firstOrder book.offerStack
    .ok ⟨if currentBid.price > best.bestBid then currentBid.price else best.bestBid,
      if currentOffer.price < best.bestOffer then currentOffer.price else best.bestOffer, true⟩
  else .ok best

/-- `GetBestBidOffer`, whose index is an `int`. The code returns a reference to its local
    `best_bidoffer`; this is the value that object had. -/
def getBestBidOffer (cusip : String) (s : BondMarketDataService ι) : Except Stop BidOffer := do
  let best ← (intLoop s.bondOrderbook).foldlM (bestStep cusip) ⟨0, 0, false⟩
  if best.found then
    .ok ⟨⟨best.bestBid, 10000000, .bid⟩, ⟨best.bestOffer, 10000000, .offer⟩⟩
  else .error .exit

/-- The first bids of the books of a product. -/
def firstBids (cusip : String) (books : List OrderBook) : Set ℚ :=
  {price | ∃ book ∈ books, book.cusip = cusip ∧
    ∃ level, book.bidStack.head? = some level ∧ level.price = price}

/-- The first offers of the books of a product. -/
def firstOffers (cusip : String) (books : List OrderBook) : Set ℚ :=
  {price | ∃ book ∈ books, book.cusip = cusip ∧
    ∃ level, book.offerStack.head? = some level ∧ level.price = price}

/-- **The answer is the best bid and the best offer of a product.** -/
def IsBest (books : List OrderBook) (cusip : String) (answer : Except Stop BidOffer) : Prop :=
  ∃ best, answer = .ok best ∧ IsGreatest (firstBids cusip books) best.bidOrder.price ∧
    IsLeast (firstOffers cusip books) best.offerOrder.price

/-- A book as the feed delivers it: two-sided, with positive prices. -/
structure Quoted (book : OrderBook) : Prop where
  twoSided : book.TwoSided
  positive : ∀ level ∈ book.bidStack ++ book.offerStack, 0 < level.price

/-- The service after some books. -/
def run (listeners : List ι) (books : List OrderBook) : BondMarketDataService ι :=
  books.foldl (fun s book => (s.onMessage book).1) ⟨[], listeners⟩

theorem bondOrderbook_run (listeners : List ι) (books : List OrderBook) :
    (run listeners books).bondOrderbook = books := by
  refine foldl_invariant (I := fun pre (s : BondMarketDataService ι) => s.bondOrderbook = pre)
    (s := ⟨[], listeners⟩) rfl ?_ books
  intro pre book s ih
  show s.bondOrderbook ++ [book] = _
  rw [ih]

/-- A quoted book has a first bid and a first offer, both above 0. -/
theorem Quoted.levels {book : OrderBook} (h : Quoted book) :
    ∃ bid offer, firstOrder book.bidStack = .ok bid ∧ book.bidStack.head? = some bid ∧
      firstOrder book.offerStack = .ok offer ∧ 0 < bid.price ∧ 0 < offer.price := by
  obtain ⟨bid, bids, hb⟩ := List.exists_cons_of_ne_nil h.twoSided.1
  obtain ⟨offer, offers, ho⟩ := List.exists_cons_of_ne_nil h.twoSided.2
  have hbid : bid ∈ book.bidStack := hb ▸ List.mem_cons_self
  have hoffer : offer ∈ book.offerStack := ho ▸ List.mem_cons_self
  refine ⟨bid, offer, by rw [hb]; rfl, by rw [hb]; rfl, by rw [ho]; rfl, ?_, ?_⟩
  · exact h.positive bid (List.mem_append_left _ hbid)
  · exact h.positive offer (List.mem_append_right _ hoffer)

/-- **What the loop keeps**: `found` says that the product was met; the bid is the greatest first
    bid met, and the offer never moves. -/
structure BestInv (cusip : String) (books : List OrderBook) (best : BestSoFar) : Prop where
  found : best.found = true ↔ ∃ book ∈ books, book.cusip = cusip
  bid : best.found = true → IsGreatest (firstBids cusip books) best.bestBid
  bidStart : best.found = false → best.bestBid = 0
  offer : best.bestOffer = 0

theorem bestInv_nil (cusip : String) : BestInv cusip [] ⟨0, 0, false⟩ where
  found := ⟨fun h => (by cases h), fun ⟨_, h, _⟩ => (by cases h)⟩
  bid h := by cases h
  bidStart _ := rfl
  offer := rfl

/-- A book of the product adds its first bid. -/
theorem firstBids_hit {cusip : String} (books : List OrderBook) {book : OrderBook} {bid : Order}
    (hc : book.cusip = cusip) (hbid : book.bidStack.head? = some bid) :
    firstBids cusip (books ++ [book]) = insert bid.price (firstBids cusip books) := by
  ext p
  refine ⟨fun hp => ?_, fun hp => ?_⟩
  · obtain ⟨b, hb, hbc, level, hlevel, hprice⟩ := hp
    rcases List.mem_append.mp hb with hb | hb
    · exact Or.inr ⟨b, hb, hbc, level, hlevel, hprice⟩
    · rw [List.mem_singleton.mp hb, hbid] at hlevel
      rw [← Option.some.inj hlevel] at hprice
      exact Or.inl hprice.symm
  · rcases hp with hp | ⟨b, hb, hbc, hlevel⟩
    · exact ⟨book, List.mem_append_right _ (List.mem_singleton_self book), hc, bid, hbid, hp.symm⟩
    · exact ⟨b, List.mem_append_left _ hb, hbc, hlevel⟩

/-- A book of another product adds nothing. -/
theorem firstBids_miss {cusip : String} (books : List OrderBook) {book : OrderBook}
    (hc : book.cusip ≠ cusip) :
    firstBids cusip (books ++ [book]) = firstBids cusip books := by
  ext p
  refine ⟨fun hp => ?_, fun hp => ?_⟩
  · obtain ⟨b, hb, hbc, hlevel⟩ := hp
    rcases List.mem_append.mp hb with hb | hb
    · exact ⟨b, hb, hbc, hlevel⟩
    · rw [List.mem_singleton.mp hb] at hbc
      exact absurd hbc hc
  · obtain ⟨b, hb, hbc, hlevel⟩ := hp
    exact ⟨b, List.mem_append_left _ hb, hbc, hlevel⟩

/-- Before the product is met it has no bids. -/
theorem BestInv.firstBids_eq_empty {cusip : String} {books : List OrderBook} {best : BestSoFar}
    (h : BestInv cusip books best) (hnot : best.found = false) : firstBids cusip books = ∅ := by
  refine Set.eq_empty_of_forall_notMem fun p hp => ?_
  obtain ⟨b, hb, hbc, -⟩ := hp
  rw [h.found.mpr ⟨b, hb, hbc⟩] at hnot
  cases hnot

/-- **One book of the product keeps it**: the maximum moves, the start value 0 of the minimum is
    below every offer. -/
theorem bestInv_hit {cusip : String} {books : List OrderBook} {best : BestSoFar}
    (h : BestInv cusip books best) {book : OrderBook} (hbook : Quoted book)
    (hc : book.cusip = cusip) :
    ∃ best', bestStep cusip best book = .ok best' ∧ BestInv cusip (books ++ [book]) best' := by
  obtain ⟨bid, offer, hbid, hhead, hoffer, hbpos, hopos⟩ := hbook.levels
  have hkeep : (if offer.price < best.bestOffer then offer.price else best.bestOffer) = 0 := by
    rw [h.offer, if_neg (not_lt.mpr hopos.le)]
  have hmax : (if bid.price > best.bestBid then bid.price else best.bestBid) =
      max bid.price best.bestBid := (max_def_lt' bid.price best.bestBid).symm
  refine ⟨⟨max bid.price best.bestBid, 0, true⟩, ?_, ?_⟩
  · unfold bestStep
    rw [if_pos hc, hbid, hoffer]
    simp only [bind, Except.bind, hkeep, hmax]
  · refine { found := ?_, bid := fun _ => ?_, bidStart := fun hf => (by cases hf), offer := rfl }
    · exact ⟨fun _ => ⟨book, List.mem_append_right _ (List.mem_singleton_self book), hc⟩,
        fun _ => rfl⟩
    · rw [firstBids_hit books hc hhead]
      cases hfound : best.found with
      | true => exact (h.bid hfound).insert bid.price
      | false =>
          rw [h.firstBids_eq_empty hfound, h.bidStart hfound, max_eq_left hbpos.le,
            insert_empty_eq]
          exact isGreatest_singleton

/-- A book of another product keeps it. -/
theorem bestInv_miss {cusip : String} {books : List OrderBook} {best : BestSoFar}
    (h : BestInv cusip books best) {book : OrderBook} (hc : book.cusip ≠ cusip) :
    BestInv cusip (books ++ [book]) best := by
  refine { found := h.found.trans ⟨fun hex => ?_, fun hex => ?_⟩, bid := fun hf => ?_,
           bidStart := h.bidStart, offer := h.offer }
  · obtain ⟨b, hb, hbc⟩ := hex
    exact ⟨b, List.mem_append_left _ hb, hbc⟩
  · obtain ⟨b, hb, hbc⟩ := hex
    rcases List.mem_append.mp hb with hb | hb
    · exact ⟨b, hb, hbc⟩
    · rw [List.mem_singleton.mp hb] at hbc
      exact absurd hbc hc
  · rw [firstBids_miss books hc]
    exact h.bid hf

theorem bestInv_step {cusip : String} {books : List OrderBook} {best : BestSoFar}
    (h : BestInv cusip books best) {book : OrderBook} (hbook : Quoted book) :
    ∃ best', bestStep cusip best book = .ok best' ∧ BestInv cusip (books ++ [book]) best' := by
  by_cases hc : book.cusip = cusip
  · exact bestInv_hit h hbook hc
  · exact ⟨best, if_neg hc, bestInv_miss h hc⟩

theorem bestInv_run (cusip : String) {books : List OrderBook} (h : ∀ book ∈ books, Quoted book) :
    ∃ best, books.foldlM (bestStep cusip) ⟨0, 0, false⟩ = .ok best ∧ BestInv cusip books best := by
  induction books using List.reverseRecOn with
  | nil => exact ⟨_, rfl, bestInv_nil cusip⟩
  | append_singleton books book ih =>
      obtain ⟨best, hbest, hinv⟩ := ih fun b hb => h b (List.mem_append_left _ hb)
      have hbook := h book (List.mem_append_right _ (List.mem_singleton_self book))
      obtain ⟨best', hbest', hinv'⟩ := bestInv_step hinv hbook
      refine ⟨best', ?_, hinv'⟩
      rw [List.foldlM_append, hbest]
      simp only [bind, Except.bind, List.foldlM_cons, hbest', List.foldlM_nil]
      rfl

/-- **What the two running values come to**: if the product is within reach of the index, the
    greatest first bid there, and 0 for the offer; otherwise the process exits. -/
theorem getBestBidOffer_run (cusip : String) (listeners : List ι) {books : List OrderBook}
    (h : ∀ book ∈ books, Quoted book) :
    (∃ book ∈ books.take 2147483648, book.cusip = cusip) ∧
        (∃ best, (run listeners books).getBestBidOffer cusip = .ok best ∧
          IsGreatest (firstBids cusip (books.take 2147483648)) best.bidOrder.price ∧
          best.offerOrder.price = 0) ∨
      (¬ ∃ book ∈ books.take 2147483648, book.cusip = cusip) ∧
        (run listeners books).getBestBidOffer cusip = .error .exit := by
  have hquoted : ∀ book ∈ books.take 2147483648, Quoted book :=
    fun book hb => h book (List.mem_of_mem_take hb)
  obtain ⟨best, hbest, hinv⟩ := bestInv_run cusip hquoted
  unfold getBestBidOffer intLoop
  rw [bondOrderbook_run, hbest]
  cases hfound : best.found with
  | true =>
      refine Or.inl ⟨hinv.found.mp hfound,
        ⟨⟨best.bestBid, 10000000, .bid⟩, ⟨best.bestOffer, 10000000, .offer⟩⟩, ?_,
        hinv.bid hfound, hinv.offer⟩
      simp only [bind, Except.bind, hfound, if_true]
  | false =>
      refine Or.inr ⟨fun hex => ?_, ?_⟩
      · rw [hinv.found.mpr hex] at hfound
        cases hfound
      · simp only [bind, Except.bind, hfound, Bool.false_eq_true, if_false]

/-- First offers are positive. -/
theorem firstOffers_pos {cusip : String} {books : List OrderBook}
    (h : ∀ book ∈ books, Quoted book) {p : ℚ} (hp : p ∈ firstOffers cusip books) : 0 < p := by
  obtain ⟨book, hbook, -, level, hlevel, rfl⟩ := hp
  exact (h book hbook).positive level
    (List.mem_append_right _ (List.mem_of_mem_head? hlevel))

/-- **The answer is never the best bid and offer**: the running minimum starts at 0, below every
    price. The running maximum starts at 0 too, and is right as long as the index gets there. -/
theorem getBestBidOffer_never (cusip : String) (listeners : List ι) {books : List OrderBook}
    (h : ∀ book ∈ books, Quoted book) (hoccurs : ∃ book ∈ books, book.cusip = cusip) :
    ¬ IsBest books cusip ((run listeners books).getBestBidOffer cusip) ∧
    (books.length ≤ 2147483648 →
      ∃ best, (run listeners books).getBestBidOffer cusip = .ok best ∧
        IsGreatest (firstBids cusip books) best.bidOrder.price ∧ best.offerOrder.price = 0) := by
  have hrun := getBestBidOffer_run cusip listeners h
  refine ⟨fun hbest => ?_, fun hlen => ?_⟩
  · obtain ⟨best, hanswer, -, hleast⟩ := hbest
    rcases hrun with ⟨-, best', hanswer', -, hzero⟩ | ⟨-, hexit⟩
    · have hsame : best = best' := Except.ok.inj (hanswer.symm.trans hanswer')
      rw [hsame, hzero] at hleast
      exact lt_irrefl _ (firstOffers_pos h hleast.1)
    · rw [hexit] at hanswer
      cases hanswer
  · rw [List.take_of_length_le hlen] at hrun
    rcases hrun with ⟨-, hanswer⟩ | ⟨hnone, -⟩
    · exact hanswer
    · exact absurd hoccurs hnone

/-- A book with one level on each side. -/
def quote99 : OrderBook :=
  ⟨Bond.ofCusip "912828M72", [⟨99, 1000000, .bid⟩], [⟨100, 2000000, .offer⟩]⟩

theorem quoted_quote99 : Quoted quote99 where
  twoSided := ⟨List.cons_ne_nil _ _, List.cons_ne_nil _ _⟩
  positive level hlevel := by
    rcases List.mem_pair.mp hlevel with rfl | rfl
    · decide +kernel
    · decide +kernel

/-- The theorem at one book. -/
theorem getBestBidOffer_never_quote99 :
    ¬ IsBest [quote99] "912828M72" ((run ["log"] [quote99]).getBestBidOffer "912828M72") ∧
    ([quote99].length ≤ 2147483648 →
      ∃ best, (run ["log"] [quote99]).getBestBidOffer "912828M72" = .ok best ∧
        IsGreatest (firstBids "912828M72" [quote99]) best.bidOrder.price ∧
        best.offerOrder.price = 0) :=
  getBestBidOffer_never "912828M72" ["log"]
    (fun book hb => List.mem_singleton.mp hb ▸ quoted_quote99)
    ⟨quote99, List.mem_singleton_self _, by decide⟩

/-- One book, 99 bid and 100 offered: the best offer answered is 0. -/
theorem bestOffer_is_zero :
    (run ["log"] [quote99]).getBestBidOffer "912828M72" =
        .ok ⟨⟨99, 10000000, .bid⟩, ⟨0, 10000000, .offer⟩⟩ ∧
      ¬ IsBest [quote99] "912828M72" ((run ["log"] [quote99]).getBestBidOffer "912828M72") := by
  have hanswer : (run ["log"] [quote99]).getBestBidOffer "912828M72" =
      .ok ⟨⟨99, 10000000, .bid⟩, ⟨0, 10000000, .offer⟩⟩ := by decide +kernel
  refine ⟨hanswer, fun h => ?_⟩
  obtain ⟨best, hbest, -, hleast⟩ := h
  rw [hanswer] at hbest
  obtain ⟨book, hbook, -, level, hlevel, hprice⟩ := hleast.1
  rw [← Except.ok.inj hbest, List.mem_singleton.mp hbook] at *
  cases hlevel
  exact absurd hprice (by decide +kernel)

/-! ## 3. Looking a book up -/

/-- The books of a product. -/
def booksFor (cusip : String) (books : List OrderBook) : List OrderBook :=
  books.filter fun book => book.cusip = cusip

/-- The calls the listeners get while some books come in. -/
def told : List OrderBook → BondMarketDataService ι → List (ι × OrderBook)
  | [], _ => []
  | book :: books, s => (s.onMessage book).2 ++ told books (s.onMessage book).1

theorem told_concat (books : List OrderBook) (book : OrderBook) (s : BondMarketDataService ι) :
    told (books ++ [book]) s = told books s ++ notify s.listenerList book := by
  induction books generalizing s with
  | nil => exact List.append_nil _
  | cons b books ih =>
      show notify s.listenerList b ++ told (books ++ [book]) (s.onMessage b).1 = _
      rw [ih, ← List.append_assoc]
      rfl

section LastTold

variable [DecidableEq ι]

/-- The book of a product that a listener has been told last: in `main` the listener hands it to the
    algorithm, which acts on it. -/
def lastTold (listener : ι) (cusip : String) (calls : List (ι × OrderBook)) : Option OrderBook :=
  (calls.filter fun call => call.1 = listener ∧ call.2.cusip = cusip).getLast?.map Prod.snd

/-- One round of calls leaves every listener with its book, if that is of the product. -/
theorem lastTold_notify {listeners : List ι} {listener : ι} (hl : listener ∈ listeners)
    (cusip : String) (calls : List (ι × OrderBook)) (book : OrderBook) :
    lastTold listener cusip (calls ++ notify listeners book) =
      if book.cusip = cusip then some book else lastTold listener cusip calls := by
  unfold lastTold
  rw [List.filter_append]
  split_ifs with hc
  · -- the calls of this round that count are to the listener, with this book
    have hround : ∀ call ∈ (notify listeners book).filter
        (fun call => call.1 = listener ∧ call.2.cusip = cusip), call.2 = book := by
      intro call hcall
      obtain ⟨l, -, rfl⟩ := List.mem_map.mp (List.mem_of_mem_filter hcall)
      rfl
    have hmem : (listener, book) ∈ (notify listeners book).filter
        (fun call => call.1 = listener ∧ call.2.cusip = cusip) :=
      List.mem_filter.mpr ⟨List.mem_map_of_mem hl, decide_eq_true ⟨rfl, hc⟩⟩
    have hne := List.ne_nil_of_mem hmem
    rw [List.getLast?_append_of_ne_nil _ hne, List.getLast?_eq_some_getLast hne, Option.map_some,
      hround _ (List.getLast_mem hne)]
  · have hnone : (notify listeners book).filter
        (fun call => call.1 = listener ∧ call.2.cusip = cusip) = [] := by
      refine List.filter_eq_nil_iff.mpr fun call hcall => ?_
      obtain ⟨l, -, rfl⟩ := List.mem_map.mp hcall
      exact fun h => hc (of_decide_eq_true h).2
    rw [hnone, List.append_nil]

/-- **A listener has been told the latest book of every product.** -/
theorem lastTold_told {listeners : List ι} {listener : ι} (hl : listener ∈ listeners)
    (cusip : String) (books : List OrderBook) :
    lastTold listener cusip (told books ⟨[], listeners⟩) = (booksFor cusip books).getLast? := by
  induction books using List.reverseRecOn with
  | nil => rfl
  | append_singleton books book ih =>
      rw [told_concat, lastTold_notify hl, booksFor, List.filter_append]
      by_cases hc : book.cusip = cusip
      · rw [if_pos hc, List.filter_cons_of_pos (by simpa using hc), List.filter_nil,
          List.getLast?_concat]
      · rw [if_neg hc, List.filter_cons_of_neg (by simpa using hc), List.filter_nil,
          List.append_nil, ih, booksFor]

/-- **The lookup of a product is up to date**: it answers the book that came in last, which is the one
    every listener has been told last. -/
structure Current (listeners : List ι) (books : List OrderBook) (cusip : String) : Prop where
  latest : ∃ book, (booksFor cusip books).getLast? = some book ∧
    (run listeners books).getData cusip = some book
  seen : ∀ listener ∈ listeners, lastTold listener cusip (told books ⟨[], listeners⟩) =
    (run listeners books).getData cusip

/-- **When the lookup of a product is up to date**: exactly when its last book is like its first one,
    which is the one the search finds. -/
theorem current_iff (listeners : List ι) {books : List OrderBook} {cusip : String}
    (hoccurs : ∃ book ∈ books, book.cusip = cusip) :
    Current listeners books cusip ↔
      (booksFor cusip books).getLast? = (booksFor cusip books).head? := by
  have hfirst : (run listeners books).getData cusip = (booksFor cusip books).head? := by
    rw [getData, bondOrderbook_run, booksFor, List.head?_filter]
  obtain ⟨book, hbook, hc⟩ := hoccurs
  have hne : booksFor cusip books ≠ [] :=
    List.ne_nil_of_mem (List.mem_filter.mpr ⟨hbook, decide_eq_true hc⟩)
  refine ⟨fun h => ?_, fun hsame => ⟨?_, fun listener hl => ?_⟩⟩
  · obtain ⟨last, hlast, hanswer⟩ := h.latest
    rw [hlast, ← hfirst, hanswer]
  · refine ⟨_, List.getLast?_eq_some_getLast hne, ?_⟩
    rw [hfirst, ← hsame, List.getLast?_eq_some_getLast hne]
  · rw [lastTold_told hl, hfirst, hsame]

end LastTold

/-- The same product, quoted again one higher. -/
def quote100 : OrderBook :=
  ⟨Bond.ofCusip "912828M72", [⟨100, 1000000, .bid⟩], [⟨101, 2000000, .offer⟩]⟩

/-- The theorem at these two books. -/
theorem current_iff_requoted :
    Current ["log"] [quote99, quote100] "912828M72" ↔
      (booksFor "912828M72" [quote99, quote100]).getLast? =
        (booksFor "912828M72" [quote99, quote100]).head? :=
  current_iff ["log"] ⟨quote99, List.mem_cons_self, by decide⟩

/-- The first book is answered, the second one was told. -/
theorem requoted_stale :
    (run ["log"] [quote99, quote100]).getData "912828M72" = some quote99 ∧
      lastTold "log" "912828M72" (told [quote99, quote100] ⟨[], ["log"]⟩) = some quote100 ∧
      ¬ Current ["log"] [quote99, quote100] "912828M72" := by
  have hanswer : (run ["log"] [quote99, quote100]).getData "912828M72" = some quote99 := by
    decide +kernel
  have htold : lastTold "log" "912828M72" (told [quote99, quote100] ⟨[], ["log"]⟩) =
      some quote100 := by decide +kernel
  refine ⟨hanswer, htold, fun h => ?_⟩
  have hseen := h.seen "log" (List.mem_singleton_self _)
  rw [hanswer, htold] at hseen
  exact absurd hseen (by decide +kernel)

end BondMarketDataService

/-! ## 4. The connector -/

namespace BondMarketDataConnector

/-- The levels the loop `for (int i = 1; i < 6; ++i)` runs through. -/
def levels : List ℤ := [1, 2, 3, 4, 5]

/-- `double(1/256)`: both operands are `int`. -/
def spread : ℚ := ((1 / 256 : ℤ) : ℚ)

def bOrder (midPrice : ℚ) (i : ℤ) : Order := ⟨midPrice - spread * i, 10000000 * i, .bid⟩

def oOrder (midPrice : ℚ) (i : ℤ) : Order := ⟨midPrice + spread * i, 10000000 * i, .offer⟩

/-- One line's record as an order book. -/
def decode (record : List String) : Except Stop OrderBook := do
  let b := Bond.ofCusip (← fieldAt record 0)
  let midPrice ← decimalBondPrice (← fieldAt record 1)
  .ok ⟨b, levels.map (bOrder midPrice), levels.map (oOrder midPrice)⟩

/-- `ReadFile`; `file = none`: it does not open. -/
def readFile {σ : Type} (onMessage : OrderBook → σ → Outcome σ) (file : Option String) (s : σ) :
    Outcome σ :=
  match file with
  | none => .stopped .exit s
  | some content => readLines decode onMessage [] (dataLines content) s

/-- A record with a readable price behind its CUSIP is a two-sided book of that CUSIP. -/
theorem decode_ok {record : List String} {cusip price : String} {midPrice : ℚ}
    (hc : record[0]? = some cusip) (hp : record[1]? = some price)
    (hm : decimalBondPrice price = .ok midPrice) :
    ∃ book, decode record = .ok book ∧ book.product = Bond.ofCusip cusip ∧ book.TwoSided := by
  refine ⟨⟨Bond.ofCusip cusip, levels.map (bOrder midPrice), levels.map (oOrder midPrice)⟩, ?_,
    rfl, ?_⟩
  · unfold decode
    rw [fieldAt_eq hc, fieldAt_eq hp]
    simp only [hm, bind, Except.bind]
  · exact ⟨List.cons_ne_nil _ _, List.cons_ne_nil _ _⟩

end BondMarketDataConnector

end BondTrading
