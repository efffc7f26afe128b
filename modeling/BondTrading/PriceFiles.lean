/-
  File:      BondTrading/PriceFiles.lean
  Subject:   WHOLE PRICE AND MARKET DATA FILES, from their characters to the streams and the orders
             they set off.

  The reader of prices answers 0 where a text is no price, and nobody looks at that.

  * `PricesSound`, `BooksSound` -- what is handed on is what a line says, and a line that says no
    price sets nothing off; `malformed_price_iff` -- the files for which that holds;
  * `ProperDepth` -- a book whose levels step away from its mid; `proper_depth_iff` -- no book that
    is read from a file is one;
  * `QuoteLine`, `TwoWay` -- the line `CUSIP,I-xyz,J-uvw` and its stream; `streams_exact` -- a file of
    such lines leaves one stream each.
-/
import BondTrading.Desk

namespace BondTrading

open Cxx

/-! ## 1. Lines of prices.txt -/

namespace BondPricingConnector

/-- The mid or the spread of a record makes the reader throw. -/
def Throws (record : List String) : Prop :=
  ∃ i text, (i = 1 ∨ i = 2) ∧ record[i]? = some text ∧ PriceThrows text

/-- **The line says the price**: its mid and its spread are denoted by texts of their own. -/
def Spells (line : List Char) (price : Price) : Prop :=
  (∃ text, (fields line)[1]? = some text ∧ Denotes text price.mid) ∧
    ∃ text, (fields line)[2]? = some text ∧ Denotes text price.bidOfferSpread

/-- What the reader makes of a record with three fields. -/
theorem decode_cases {record : List String} (hlen : 3 ≤ record.length) :
    (∃ price mid spread, ¬ Throws record ∧ decode record = .ok price ∧
      record[1]? = some mid ∧ decimalBondPrice mid = .ok price.mid ∧
      record[2]? = some spread ∧ decimalBondPrice spread = .ok price.bidOfferSpread) ∨
    (Throws record ∧ ∃ why, decode record = .error why) := by
  have hc : record[0]? = some record[0] := List.getElem?_eq_getElem (by omega)
  have hm : record[1]? = some record[1] := List.getElem?_eq_getElem (by omega)
  have hs : record[2]? = some record[2] := List.getElem?_eq_getElem (by omega)
  unfold decode
  rw [fieldAt_eq hc, fieldAt_eq hm, fieldAt_eq hs]
  rcases decimalBondPrice_cases record[1] with ⟨hthrows, why, he⟩ | ⟨hmid, mid, he⟩
  · refine Or.inr ⟨⟨1, record[1], Or.inl rfl, hm, hthrows⟩, why, ?_⟩
    simp only [he, bind, Except.bind]
  · rcases decimalBondPrice_cases record[2] with ⟨hthrows, why, he'⟩ | ⟨hspread, spread, he'⟩
    · refine Or.inr ⟨⟨2, record[2], Or.inr rfl, hs, hthrows⟩, why, ?_⟩
      simp only [he, he', bind, Except.bind]
    · refine Or.inl ⟨⟨Bond.ofCusip record[0], mid, spread⟩, record[1], record[2], ?_, ?_, hm, he,
        hs, he'⟩
      · intro h
        obtain ⟨i, text, hi, htext, hthrows⟩ := h
        rcases hi with rfl | rfl
        · rw [← Option.some.inj (hm.symm.trans htext)] at hthrows
          exact hmid hthrows
        · rw [← Option.some.inj (hs.symm.trans htext)] at hthrows
          exact hspread hthrows
      · simp only [he, he', bind, Except.bind]

/-- The price that is read from a line is the one it says, if it says any. -/
theorem spells_of_decode {line : List Char} {read said : Price} {mid spread : String}
    (hm : (fields line)[1]? = some mid) (hmid : decimalBondPrice mid = .ok read.mid)
    (hs : (fields line)[2]? = some spread)
    (hspread : decimalBondPrice spread = .ok read.bidOfferSpread) (h : Spells line said) :
    Spells line read := by
  obtain ⟨⟨text, htext, I, x, z, htick, -⟩, text', htext', I', x', z', htick', -⟩ := h
  rw [← Option.some.inj (hm.symm.trans htext)] at htick
  rw [← Option.some.inj (hs.symm.trans htext')] at htick'
  exact ⟨⟨mid, hm, I, x, z, htick, htick.value hmid⟩,
    spread, hs, I', x', z', htick', htick'.value hspread⟩

end BondPricingConnector

/-! ## 2. Lines of marketdata.txt -/

/-- The price half way between the best bid and the best offer. -/
def OrderBook.mid (book : OrderBook) : Option ℚ :=
  match book.bidStack, book.offerStack with
  | bid :: _, offer :: _ => some ((bid.price + offer.price) / 2)
  | _, _ => none

namespace BondMarketDataConnector

/-- The price of a record makes the reader throw. -/
def Throws (record : List String) : Prop :=
  ∃ text, record[1]? = some text ∧ PriceThrows text

/-- **The line says the book**: its mid is denoted by the text of the price. -/
def Spells (line : List Char) (book : OrderBook) : Prop :=
  ∃ text mid, (fields line)[1]? = some text ∧ Denotes text mid ∧ book.mid = some mid

/-- `double(1/256)` is nothing. -/
theorem spread_eq_zero : spread = 0 := by decide +kernel

/-- The book the reader makes around a mid. -/
def bookAround (product : Bond) (midPrice : ℚ) : OrderBook :=
  ⟨product, levels.map (bOrder midPrice), levels.map (oOrder midPrice)⟩

theorem bookAround_twoSided (product : Bond) (midPrice : ℚ) :
    (bookAround product midPrice).TwoSided :=
  ⟨List.cons_ne_nil _ _, List.cons_ne_nil _ _⟩

/-- **All its levels lie at the mid.** -/
theorem bookAround_price {product : Bond} {midPrice : ℚ} {level : Order}
    (h : level ∈ (bookAround product midPrice).bidStack ++
      (bookAround product midPrice).offerStack) : level.price = midPrice := by
  rcases List.mem_append.mp h with h | h
  · obtain ⟨i, -, rfl⟩ := List.mem_map.mp h
    show midPrice - spread * i = midPrice
    rw [spread_eq_zero, zero_mul, sub_zero]
  · obtain ⟨i, -, rfl⟩ := List.mem_map.mp h
    show midPrice + spread * i = midPrice
    rw [spread_eq_zero, zero_mul, add_zero]

theorem bookAround_mid (product : Bond) (midPrice : ℚ) :
    (bookAround product midPrice).mid = some midPrice := by
  show some ((midPrice - spread * ((1 : ℤ) : ℚ) + (midPrice + spread * ((1 : ℤ) : ℚ))) / 2) = _
  rw [spread_eq_zero]
  congr 1
  ring

/-- What the reader makes of a record with two fields. -/
theorem decode_cases {record : List String} (hlen : 2 ≤ record.length) :
    (∃ product text midPrice, ¬ Throws record ∧
      decode record = .ok (bookAround product midPrice) ∧
      record[1]? = some text ∧ decimalBondPrice text = .ok midPrice) ∨
    (Throws record ∧ ∃ why, decode record = .error why) := by
  have hc : record[0]? = some record[0] := List.getElem?_eq_getElem (by omega)
  have hp : record[1]? = some record[1] := List.getElem?_eq_getElem (by omega)
  unfold decode
  rw [fieldAt_eq hc, fieldAt_eq hp]
  rcases decimalBondPrice_cases record[1] with ⟨hthrows, why, he⟩ | ⟨hno, midPrice, he⟩
  · refine Or.inr ⟨⟨record[1], hp, hthrows⟩, why, ?_⟩
    simp only [he, bind, Except.bind]
  · refine Or.inl ⟨Bond.ofCusip record[0], record[1], midPrice, ?_, ?_, hp, he⟩
    · intro h
      obtain ⟨text, htext, hthrows⟩ := h
      rw [← Option.some.inj (hp.symm.trans htext)] at hthrows
      exact hno hthrows
    · simp only [he, bind, Except.bind]
      rfl

/-- The book that is read from a line is one it says, if it says any. -/
theorem spells_of_decode {line : List Char} {said : OrderBook} {product : Bond} {text : String}
    {midPrice : ℚ} (hp : (fields line)[1]? = some text)
    (hmid : decimalBondPrice text = .ok midPrice) (h : Spells line said) :
    Spells line (bookAround product midPrice) := by
  obtain ⟨text', mid, htext, ⟨I, x, z, htick, -⟩, -⟩ := h
  rw [← Option.some.inj (hp.symm.trans htext)] at htick
  exact ⟨text, midPrice, hp, ⟨I, x, z, htick, htick.value hmid⟩, bookAround_mid product midPrice⟩

end BondMarketDataConnector

/-! ## 3. What a malformed price sets off -/

namespace Desk

/-- What the pricing service has been handed, and the streams that came of it. -/
def pricesHanded (d : Desk) : List Price := d.priceSrv.bondPrice

def streamsMade (d : Desk) : List PriceStream := d.streamingSrv.bondPriceStream

/-- What the market data service has been handed, and the orders that came of it. -/
def booksHanded (d : Desk) : List OrderBook := d.marketDataSrv.bondOrderbook

def ordersMade (d : Desk) : List ExecutionOrder := d.executionSrv.bondOrder

/-- **A line of prices is taken at its word**: a price that is handed on is one it says, and if it
    says none there is no price and no stream. -/
structure PriceTaken (line : List Char) (d : Desk) (o : Outcome Desk) : Prop where
  said : ∀ price ∈ added pricesHanded d o, BondPricingConnector.Spells line price
  refused : (¬ ∃ price, BondPricingConnector.Spells line price) →
    added pricesHanded d o = [] ∧ added streamsMade d o = []

/-- **A line of market data is taken at its word.** -/
structure BookTaken (line : List Char) (d : Desk) (o : Outcome Desk) : Prop where
  said : ∀ book ∈ added booksHanded d o, BondMarketDataConnector.Spells line book
  refused : (¬ ∃ book, BondMarketDataConnector.Spells line book) →
    added booksHanded d o = [] ∧ added ordersMade d o = []

/-- Every line of a price file that `ReadFile` gets to is taken at its word. -/
def PricesSound (content : String) (d : Desk) : Prop :=
  EveryLine BondPricingConnector.decode (fun price d => .done (onPrice price d)) PriceTaken
    (dataLines content) d

/-- Every line of a market data file that `ReadFile` gets to is taken at its word. -/
def BooksSound (content : String) (d : Desk) : Prop :=
  EveryLine BondMarketDataConnector.decode onOrderBook BookTaken (dataLines content) d

/-- Every line up to the first one that throws says a price. -/
def SaysPrices (content : String) : Prop :=
  Until (fun _ line => BondPricingConnector.Throws (fields line))
    (fun line => (∃ price, BondPricingConnector.Spells line price) ∨
      BondPricingConnector.Throws (fields line)) [] (dataLines content)

/-- Every line up to the first one that throws says a book. -/
def SaysBooks (content : String) : Prop :=
  Until (fun _ line => BondMarketDataConnector.Throws (fields line))
    (fun line => (∃ book, BondMarketDataConnector.Spells line book) ∨
      BondMarketDataConnector.Throws (fields line)) [] (dataLines content)

section Lines

variable {historical : Bool} {d : Desk} (h : Wired historical d) {line : List Char}

include h

/-- A price that comes in is handed on, and a stream made of it. -/
theorem added_onPrice (price : Price) :
    added pricesHanded d (.done (onPrice price d)) = [price] ∧
      added streamsMade d (.done (onPrice price d)) =
        [BondAlgoStreamingService.streamFor price] := by
  rw [onPrice_eq h]
  exact ⟨List.drop_left, List.drop_left⟩

theorem priceTaken_iff (hlen : 3 ≤ (fields line).length) :
    PriceTaken line d
        (lineStep BondPricingConnector.decode (fun price d => .done (onPrice price d)) line d) ↔
      (∃ price, BondPricingConnector.Spells line price) ∨
        BondPricingConnector.Throws (fields line) := by
  rcases BondPricingConnector.decode_cases hlen with
    ⟨price, mid, spread, hthrows, he, hm, hmid, hs, hspread⟩ | ⟨hthrows, why, he⟩
  · obtain ⟨hprices, hstreams⟩ := added_onPrice h price
    rw [lineStep_ok _ _ he]
    refine ⟨fun htaken => ?_, fun hok => ?_⟩
    · refine Or.inl ⟨price, htaken.said price ?_⟩
      rw [hprices]
      exact List.mem_singleton_self price
    · obtain ⟨said, hsaid⟩ := hok.resolve_right hthrows
      refine ⟨fun price' hprice' => ?_, fun hnone => absurd ⟨said, hsaid⟩ hnone⟩
      rw [hprices] at hprice'
      rw [List.mem_singleton.mp hprice']
      exact BondPricingConnector.spells_of_decode hm hmid hs hspread hsaid
  · rw [lineStep_error _ _ he]
    refine ⟨fun _ => Or.inr hthrows, fun _ => ⟨fun price hprice => ?_, fun _ => ?_⟩⟩
    · rw [added_stopped] at hprice
      cases hprice
    · exact ⟨added_stopped _ why d, added_stopped _ why d⟩

theorem priceLine_goes (hlen : 3 ≤ (fields line).length) :
    (BondPricingConnector.Throws (fields line) ∧ ∀ d', lineStep BondPricingConnector.decode
      (fun price d => .done (onPrice price d)) line d ≠ .done d') ∨
    (¬ BondPricingConnector.Throws (fields line) ∧ ∃ d', lineStep BondPricingConnector.decode
      (fun price d => .done (onPrice price d)) line d = .done d' ∧ Wired historical d') := by
  rcases BondPricingConnector.decode_cases hlen with
    ⟨price, mid, spread, hthrows, he, -⟩ | ⟨hthrows, why, he⟩
  · exact Or.inr ⟨hthrows, onPrice price d, lineStep_ok _ _ he d, wired_onPrice h price⟩
  · exact Or.inl ⟨hthrows, lineStep_ne_done _ _ he d⟩

/-- A two-sided book that comes in is handed on, and an order made of it; the desk stays wired. -/
theorem added_onOrderBook {book : OrderBook} (htwo : book.TwoSided) :
    ∃ d' order, onOrderBook book d = .done d' ∧ Wired historical d' ∧
      added booksHanded d (.done d') = [book] ∧ added ordersMade d (.done d') = [order, order] := by
  obtain ⟨algo, order, -, he⟩ := onOrderBook_eq h htwo
  exact ⟨_, order, he, wired_onOrderBook h htwo he, List.drop_left, List.drop_left⟩

theorem bookTaken_iff (hlen : 2 ≤ (fields line).length) :
    BookTaken line d (lineStep BondMarketDataConnector.decode onOrderBook line d) ↔
      (∃ book, BondMarketDataConnector.Spells line book) ∨
        BondMarketDataConnector.Throws (fields line) := by
  rcases BondMarketDataConnector.decode_cases hlen with
    ⟨product, text, midPrice, hthrows, he, hp, hmid⟩ | ⟨hthrows, why, he⟩
  · obtain ⟨d', order, hdone, -, hbooks, horders⟩ := added_onOrderBook h
      (BondMarketDataConnector.bookAround_twoSided product midPrice)
    rw [lineStep_ok _ _ he, hdone]
    refine ⟨fun htaken => ?_, fun hok => ?_⟩
    · refine Or.inl ⟨_, htaken.said (BondMarketDataConnector.bookAround product midPrice) ?_⟩
      rw [hbooks]
      exact List.mem_singleton_self _
    · obtain ⟨said, hsaid⟩ := hok.resolve_right hthrows
      refine ⟨fun book hbook => ?_, fun hnone => absurd ⟨said, hsaid⟩ hnone⟩
      rw [hbooks] at hbook
      rw [List.mem_singleton.mp hbook]
      exact BondMarketDataConnector.spells_of_decode hp hmid hsaid
  · rw [lineStep_error _ _ he]
    refine ⟨fun _ => Or.inr hthrows, fun _ => ⟨fun book hbook => ?_, fun _ => ?_⟩⟩
    · rw [added_stopped] at hbook
      cases hbook
    · exact ⟨added_stopped _ why d, added_stopped _ why d⟩

theorem bookLine_goes (hlen : 2 ≤ (fields line).length) :
    (BondMarketDataConnector.Throws (fields line) ∧
      ∀ d', lineStep BondMarketDataConnector.decode onOrderBook line d ≠ .done d') ∨
    (¬ BondMarketDataConnector.Throws (fields line) ∧
      ∃ d', lineStep BondMarketDataConnector.decode onOrderBook line d = .done d' ∧
        Wired historical d') := by
  rcases BondMarketDataConnector.decode_cases hlen with
    ⟨product, text, midPrice, hthrows, he, -⟩ | ⟨hthrows, why, he⟩
  · obtain ⟨d', order, hdone, hwired, -⟩ := added_onOrderBook h
      (BondMarketDataConnector.bookAround_twoSided product midPrice)
    exact Or.inr ⟨hthrows, d', (lineStep_ok _ _ he d).trans hdone, hwired⟩
  · exact Or.inl ⟨hthrows, lineStep_ne_done _ _ he d⟩

end Lines

/-- **When a malformed price never becomes a market price**, of files whose lines have their fields:
    exactly when every line says its prices, up to one that throws. -/
theorem malformed_price_iff {historical : Bool} {d : Desk} (h : Wired historical d)
    {prices marketdata : String} (hprices : ∀ line ∈ dataLines prices, 3 ≤ (fields line).length)
    (hbooks : ∀ line ∈ dataLines marketdata, 2 ≤ (fields line).length) :
    (PricesSound prices d ↔ SaysPrices prices) ∧
      (BooksSound marketdata d ↔ SaysBooks marketdata) := by
  unfold PricesSound BooksSound
  rw [everyLine_iff, everyLine_iff]
  constructor
  · refine everyStep_iff (J := fun _ d => Wired historical d) (dataLines prices) ?_ ?_ [] h
    · exact fun _ line _ hmem hw => priceTaken_iff hw (hprices line hmem)
    · exact fun _ line _ hmem hw _ => priceLine_goes hw (hprices line hmem)
  · refine everyStep_iff (J := fun _ d => Wired historical d) (dataLines marketdata) ?_ ?_ [] h
    · exact fun _ line _ hmem hw => bookTaken_iff hw (hbooks line hmem)
    · exact fun _ line _ hmem hw _ => bookLine_goes hw (hbooks line hmem)

/-- Two lines each, the second of which throws: its price has no digits behind the dash. -/
def fewPrices : String := "h\n912828M72,99-00+,0-002\n912828M72,99-,0-002"

def fewBooks : String := "h\n912828M72,99-001\n912828M72,99-"

theorem dataLines_few :
    dataLines fewPrices = ["912828M72,99-00+,0-002".toList, "912828M72,99-,0-002".toList] ∧
    dataLines fewBooks = ["912828M72,99-001".toList, "912828M72,99-".toList] := by
  decide +kernel

/-- The theorem at these lines, at the desk of `main`. -/
theorem malformed_price_iff_few :
    (PricesSound fewPrices (wired true fun _ => none) ↔ SaysPrices fewPrices) ∧
      (BooksSound fewBooks (wired true fun _ => none) ↔ SaysBooks fewBooks) :=
  malformed_price_iff (wired_wired true fun _ => none)
    (fun line hline => by
      rw [dataLines_few.1] at hline
      rcases List.mem_pair.mp hline with rfl | rfl
      · decide +kernel
      · decide +kernel)
    (fun line hline => by
      rw [dataLines_few.2] at hline
      rcases List.mem_pair.mp hline with rfl | rfl
      · decide +kernel
      · decide +kernel)

/-- A price without a dash. -/
def noDash : String := "h\n912828M72,99,0-002"

/-- It becomes the mid 0: of a price, of a stream, of a book, and of the order that is sent to the
    market. -/
theorem noDash_traded :
    (BondPricingConnector.readFile (fun price d => .done (onPrice price d)) (some noDash)
        (wired true fun _ => none)).state.pricesHanded =
      [⟨Bond.ofCusip "912828M72", 0, 1 / 128⟩] ∧
    (BondMarketDataConnector.readFile onOrderBook (some noDash)
        (wired true fun _ => none)).state.ordersMade.map ExecutionOrder.price = [0, 0] ∧
    ¬ PricesSound noDash (wired true fun _ => none) ∧
    ¬ BooksSound noDash (wired true fun _ => none) := by
  have hlines : dataLines noDash = ["912828M72,99,0-002".toList] := by decide +kernel
  have hfields : fields "912828M72,99,0-002".toList = ["912828M72", "99", "0-002"] := by
    decide +kernel
  have hdash : '-' ∉ "99".toList := by decide
  have hsays : ∀ {price : ℚ}, ¬ Denotes "99" price := fun h => hdash h.dash_mem
  have hfirst : ¬ PriceThrows "99" :=
    not_priceThrows (show decimalBondPrice "99" = .ok 0 by decide +kernel)
  have hsecond : ¬ PriceThrows "0-002" :=
    not_priceThrows (show decimalBondPrice "0-002" = .ok (1 / 128) by decide +kernel)
  refine ⟨by decide +kernel, by decide +kernel, fun h => ?_, fun h => ?_⟩
  · rw [PricesSound, hlines] at h
    rcases (priceTaken_iff (wired_wired true fun _ => none) (by rw [hfields]; decide)).mp h.first with
      ⟨price, ⟨text, htext, hdenotes⟩, -⟩ | ⟨i, text, hi, htext, hthrows⟩
    · rw [hfields] at htext
      rw [← Option.some.inj htext] at hdenotes
      exact hsays hdenotes
    · rw [hfields] at htext
      rcases hi with rfl | rfl
      · rw [← Option.some.inj htext] at hthrows
        exact hfirst hthrows
      · rw [← Option.some.inj htext] at hthrows
        exact hsecond hthrows
  · rw [BooksSound, hlines] at h
    rcases (bookTaken_iff (wired_wired true fun _ => none) (by rw [hfields]; decide)).mp h.first with
      ⟨book, text, mid, htext, hdenotes, -⟩ | ⟨text, htext, hthrows⟩
    · rw [hfields] at htext
      rw [← Option.some.inj htext] at hdenotes
      exact hsays hdenotes
    · rw [hfields] at htext
      rw [← Option.some.inj htext] at hthrows
      exact hfirst hthrows

/-! ## 4. The depth of a book -/

/-- **A proper depth book around a mid**: level `i` of either side lies `i/256` away from it. -/
structure ProperDepth (mid : ℚ) (book : OrderBook) : Prop where
  increasing : book.offerStack.Pairwise fun level next => level.price < next.price
  decreasing : book.bidStack.Pairwise fun level next => next.price < level.price
  above : ∀ level ∈ book.offerStack, mid < level.price
  below : ∀ level ∈ book.bidStack, level.price < mid
  offers : ∀ (i : Nat) level, book.offerStack[i]? = some level → level.price = mid + (i + 1) / 256
  bids : ∀ (i : Nat) level, book.bidStack[i]? = some level → level.price = mid - (i + 1) / 256

/-- A line of market data is a price text `I-xyz`, with any `I`. -/
def TickLine (line : List Char) (I x z : Nat) : Prop :=
  ∃ text, (fields line)[1]? = some text ∧ TickText text I x z

/-- **A line makes proper depth**: the book that is passed on is a proper one around the line's price,
    and the algorithm buys above and sells below it. -/
def DepthTaken (line : List Char) (d : Desk) (o : Outcome Desk) : Prop :=
  ∃ I x z, TickLine line I x z ∧
    (∀ book ∈ added booksHanded d o, ProperDepth (tickPrice I x z) book) ∧
    ∀ order ∈ added ordersMade d o,
      (order.side = .bid → tickPrice I x z < order.price) ∧
      (order.side = .offer → order.price < tickPrice I x z)

/-- Every line of a market data file that `ReadFile` gets to makes proper depth. -/
def DepthSound (content : String) (d : Desk) : Prop :=
  EveryLine BondMarketDataConnector.decode onOrderBook DepthTaken (dataLines content) d

/-- A book made by the reader has its first offer at the mid. -/
theorem not_properDepth (product : Bond) (midPrice : ℚ) :
    ¬ ProperDepth midPrice (BondMarketDataConnector.bookAround product midPrice) := by
  intro h
  have habove := h.above (BondMarketDataConnector.oOrder midPrice 1) List.mem_cons_self
  have hlevel : BondMarketDataConnector.oOrder midPrice 1 ∈
      (BondMarketDataConnector.bookAround product midPrice).bidStack ++
        (BondMarketDataConnector.bookAround product midPrice).offerStack :=
    List.mem_append_right _ List.mem_cons_self
  rw [BondMarketDataConnector.bookAround_price hlevel] at habove
  exact lt_irrefl _ habove

theorem TickLine.length {line : List Char} {I x z : Nat} (h : TickLine line I x z) :
    2 ≤ (fields line).length := by
  obtain ⟨text, htext, -⟩ := h
  have hlt := (List.getElem?_eq_some_iff.mp htext).1
  omega

/-- Of well-formed lines, those throw whose `I` is too large. -/
theorem TickLine.throws_iff {line : List Char} {I x z : Nat} (h : TickLine line I x z) :
    BondMarketDataConnector.Throws (fields line) ↔ 2147483648 ≤ I := by
  obtain ⟨text, htext, htick⟩ := h
  rw [← htick.priceThrows_iff]
  constructor
  · intro hthrows
    obtain ⟨text', htext', hthrows⟩ := hthrows
    rwa [← Option.some.inj (htext.symm.trans htext')] at hthrows
  · exact fun hthrows => ⟨text, htext, hthrows⟩

/-- **A well-formed line makes proper depth only if nothing is made of it.** -/
theorem depthTaken_iff {historical : Bool} {d : Desk} (hw : Wired historical d)
    {line : List Char} {I x z : Nat} (h : TickLine line I x z) :
    DepthTaken line d (lineStep BondMarketDataConnector.decode onOrderBook line d) ↔
      BondMarketDataConnector.Throws (fields line) := by
  rcases BondMarketDataConnector.decode_cases h.length with
    ⟨product, text, midPrice, hthrows, he, hp, hmid⟩ | ⟨hthrows, why, he⟩
  · obtain ⟨d', order, hdone, -, hbooks, -⟩ := added_onOrderBook hw
      (BondMarketDataConnector.bookAround_twoSided product midPrice)
    rw [lineStep_ok _ _ he, hdone]
    refine ⟨fun htaken => ?_, fun hyes => absurd hyes hthrows⟩
    obtain ⟨I', x', z', ⟨text', htext', htick'⟩, hproper, -⟩ := htaken
    rw [← Option.some.inj (hp.symm.trans htext')] at htick'
    refine absurd (hproper (BondMarketDataConnector.bookAround product midPrice) ?_) ?_
    · rw [hbooks]
      exact List.mem_singleton_self _
    · rw [← htick'.value hmid]
      exact not_properDepth product midPrice
  · rw [lineStep_error _ _ he]
    refine ⟨fun _ => hthrows, fun _ => ⟨I, x, z, h, fun book hbook => ?_, fun order horder => ?_⟩⟩
    · rw [added_stopped] at hbook
      cases hbook
    · rw [added_stopped] at horder
      cases horder

/-- **No book from a file is a proper depth book**: every one that is passed on has all its levels at
    its mid. So a well-formed file makes proper depth exactly if it makes no book: it has no line, or
    the first one's `I` does not fit an `int`. -/
theorem proper_depth_iff {historical : Bool} {d : Desk} (hw : Wired historical d)
    {content : String} (hwf : ∀ line ∈ dataLines content, ∃ I x z, TickLine line I x z) :
    DepthSound content d ↔
      ∀ line ∈ (dataLines content).head?, ∃ I x z, TickLine line I x z ∧ 2147483648 ≤ I := by
  unfold DepthSound
  rw [everyLine_iff]
  cases hlines : dataLines content with
  | nil => exact ⟨fun _ line hline => (by cases hline), fun _ => trivial⟩
  | cons line lines =>
      obtain ⟨I, x, z, hline⟩ := hwf line (hlines ▸ List.mem_cons_self)
      have hfirst : (∀ l ∈ (line :: lines).head?, ∃ I x z, TickLine l I x z ∧ 2147483648 ≤ I) ↔
          BondMarketDataConnector.Throws (fields line) := by
        refine ⟨fun h => ?_, fun hthrows l hl => ?_⟩
        · obtain ⟨I', x', z', hline', hI⟩ := h line rfl
          exact hline'.throws_iff.mpr hI
        · rw [← Option.some.inj hl]
          exact ⟨I, x, z, hline, hline.throws_iff.mp hthrows⟩
      rw [hfirst]
      constructor
      · exact fun h => (depthTaken_iff hw hline).mp h.1
      · intro hthrows
        refine ⟨(depthTaken_iff hw hline).mpr hthrows, fun d' hdone => ?_⟩
        rcases bookLine_goes hw hline.length with ⟨-, hstop⟩ | ⟨hno, -⟩
        · exact absurd hdone (hstop d')
        · exact absurd hthrows hno

/-- One line of market data. -/
def oneBook : String := "h\n912828M72,99-001"

theorem dataLines_oneBook : dataLines oneBook = ["912828M72,99-001".toList] := by decide +kernel

theorem tickLine_oneBook : TickLine "912828M72,99-001".toList 99 0 1 :=
  ⟨"99-001", by decide +kernel, ['9', '9'], '0', '0', '1', by decide +kernel, by decide,
    by decide, by decide, by decide, by decide, by decide, by decide⟩

/-- The theorem at that line. -/
theorem proper_depth_iff_oneBook :
    DepthSound oneBook (wired true fun _ => none) ↔
      ∀ line ∈ (dataLines oneBook).head?, ∃ I x z, TickLine line I x z ∧ 2147483648 ≤ I :=
  proper_depth_iff (wired_wired true fun _ => none) fun line hline => by
    rw [dataLines_oneBook] at hline
    rw [List.mem_singleton.mp hline]
    exact ⟨99, 0, 1, tickLine_oneBook⟩

/-- All ten levels lie at 99-001, and the first order buys there. -/
theorem oneBook_flat :
    (BondMarketDataConnector.readFile onOrderBook (some oneBook)
        (wired true fun _ => none)).state.booksHanded.flatMap (fun book =>
          (book.bidStack ++ book.offerStack).map Order.price) =
      List.replicate 10 (tickPrice 99 0 1) ∧
    (BondMarketDataConnector.readFile onOrderBook (some oneBook)
        (wired true fun _ => none)).state.ordersMade.map ExecutionOrder.price =
      [tickPrice 99 0 1, tickPrice 99 0 1] ∧
    ¬ DepthSound oneBook (wired true fun _ => none) := by
  refine ⟨by decide +kernel, by decide +kernel, fun h => ?_⟩
  rw [DepthSound, dataLines_oneBook] at h
  have hthrows := (depthTaken_iff (wired_wired true fun _ => none) tickLine_oneBook).mp h.first
  exact absurd (tickLine_oneBook.throws_iff.mp hthrows) (by decide)

/-! ## 5. Well-formed price files -/

/-- **The line `CUSIP,I-xyz,J-uvw`**: a CUSIP without a comma, a mid of `I` points, `x` 32nds and `z`
    256ths, and a spread of `J` points, `u` 32nds and `w` 256ths. -/
def QuoteLine (line : List Char) (cusip : String) (I x z J u w : Nat) : Prop :=
  ∃ mid spread, line = cusip.toList ++ ',' :: (mid.toList ++ ',' :: spread.toList) ∧
    ',' ∉ cusip.toList ∧ PriceText mid I x z ∧ PriceText spread J u w

theorem comma_notMem_priceText {s : String} {I x z : Nat} (h : PriceText s I x z) :
    ',' ∉ s.toList := by
  obtain ⟨ds, a, b, c, hs, hd, -, -, hab, -, -, hc, -⟩ := h
  rw [hs, List.mem_append, List.mem_cons, List.mem_cons, List.mem_cons, List.mem_singleton]
  rintro (hmem | hdash | rfl | rfl | rfl)
  · exact absurd (hd.2 _ hmem) (by decide)
  · exact absurd hdash (by decide)
  · exact absurd (hab.2 ',' List.mem_cons_self) (by decide)
  · exact absurd (hab.2 ',' (List.mem_cons_of_mem _ List.mem_cons_self)) (by decide)
  · have hneg : lastDigit ',' = -4 := by decide
    omega

/-- What the connector makes of such a line. -/
theorem QuoteLine.decode {line : List Char} {cusip : String} {I x z J u w : Nat}
    (h : QuoteLine line cusip I x z J u w) :
    BondPricingConnector.decode (fields line) =
      .ok ⟨Bond.ofCusip cusip, tickPrice I x z, tickPrice J u w⟩ := by
  obtain ⟨mid, spread, rfl, hcusip, hmid, hspread⟩ := h
  have hne : spread.toList ≠ [] := by
    obtain ⟨ds, a, b, c, hs, -⟩ := hspread
    rw [hs]
    exact List.append_ne_nil_of_right_ne_nil _ (List.cons_ne_nil _ _)
  have hfields : fields (cusip.toList ++ ',' :: (mid.toList ++ ',' :: spread.toList)) =
      [cusip, mid, spread] := by
    rw [fields, getlines_append hcusip, getlines_append (comma_notMem_priceText hmid),
      getlines_last (comma_notMem_priceText hspread) hne]
    simp only [List.map_cons, List.map_nil, String.ofList_toList]
  unfold BondPricingConnector.decode
  rw [hfields, fieldAt_eq rfl, fieldAt_eq rfl, fieldAt_eq rfl]
  simp only [decimalBondPrice_priceText hmid, decimalBondPrice_priceText hspread, bind, Except.bind]

/-- **The two-way price of a quote**: centred at the mid, as wide as the spread, with one visible
    quantity on both sides and nothing hidden. -/
structure TwoWay (cusip : String) (I x z J u w : Nat) (stream : PriceStream) : Prop where
  cusip : stream.cusip = cusip
  centre : stream.bidOrder.price + stream.offerOrder.price = 2 * (I + x / 32 + z / 256)
  width : stream.offerOrder.price - stream.bidOrder.price = J + u / 32 + w / 256
  ordered : stream.bidOrder.price ≤ stream.offerOrder.price
  visible : stream.bidOrder.visibleQuantity = stream.offerOrder.visibleQuantity
  hidden : stream.bidOrder.hiddenQuantity = 0 ∧ stream.offerOrder.hiddenQuantity = 0

theorem twoWay_streamFor (cusip : String) (I x z J u w : Nat) :
    TwoWay cusip I x z J u w (BondAlgoStreamingService.streamFor
      ⟨Bond.ofCusip cusip, tickPrice I x z, tickPrice J u w⟩) := by
  have hspread : (0 : ℚ) ≤ tickPrice J u w := by
    unfold tickPrice
    positivity
  unfold BondAlgoStreamingService.streamFor
  refine ⟨Bond.productId_ofCusip cusip, ?_, ?_, ?_, rfl, rfl, rfl⟩
  · show tickPrice I x z - tickPrice J u w / 2 + (tickPrice I x z + tickPrice J u w / 2) = _
    unfold tickPrice
    ring
  · show tickPrice I x z + tickPrice J u w / 2 - (tickPrice I x z - tickPrice J u w / 2) = _
    unfold tickPrice
    ring
  · show tickPrice I x z - tickPrice J u w / 2 ≤ tickPrice I x z + tickPrice J u w / 2
    linarith

/-- The stream says what the line says, however that is read. -/
def StreamOf (line : List Char) (stream : PriceStream) : Prop :=
  ∀ cusip I x z J u w, QuoteLine line cusip I x z J u w → TwoWay cusip I x z J u w stream

/-- The prices of a run, and the streams they leave. -/
theorem streams_runAll {historical : Bool} {d : Desk} (h : Wired historical d)
    (prices : List Price) :
    ∃ d', runAll (fun price d => .done (onPrice price d)) prices d = .done d' ∧
      Wired historical d' ∧ d'.streamingSrv.bondPriceStream =
        d.streamingSrv.bondPriceStream ++ prices.map BondAlgoStreamingService.streamFor := by
  refine runAll_invariant (I := fun pre d' => Wired historical d' ∧
    d'.streamingSrv.bondPriceStream = d.streamingSrv.bondPriceStream ++
      pre.map BondAlgoStreamingService.streamFor) prices ⟨h, ?_⟩ ?_
  · rw [List.map_nil, List.append_nil]
  · intro pre price post d₁ _ hd
    obtain ⟨hwired, hstreams⟩ := hd
    refine ⟨onPrice price d₁, rfl, wired_onPrice hwired price, ?_⟩
    rw [(stores_onPrice hwired price).2, hstreams, List.map_append, List.append_assoc]
    rfl

/-- **Every line of a price file becomes one stream**, in order: exact, centred, and of the line's
    width. -/
theorem streams_exact {historical : Bool} {d : Desk} (h : Wired historical d) {content : String}
    (hlines : ∀ line ∈ dataLines content, ∃ cusip I x z J u w,
      QuoteLine line cusip I x z J u w) :
    ∃ d' streams, BondPricingConnector.readFile (fun price d => .done (onPrice price d))
        (some content) d = .done d' ∧
      d'.streamingSrv.bondPriceStream = d.streamingSrv.bondPriceStream ++ streams ∧
      List.Forall₂ StreamOf (dataLines content) streams := by
  have hpriced : ∀ line ∈ dataLines content, ∃ price,
      BondPricingConnector.decode (fields line) = .ok price ∧
        StreamOf line (BondAlgoStreamingService.streamFor price) := by
    intro line hline
    obtain ⟨cusip, I, x, z, J, u, w, hquote⟩ := hlines line hline
    refine ⟨_, hquote.decode, fun cusip' I' x' z' J' u' w' hquote' => ?_⟩
    -- another reading of the line decodes to the same price
    rw [Except.ok.inj (hquote.decode.symm.trans hquote'.decode)]
    exact twoWay_streamFor cusip' I' x' z' J' u' w'
  obtain ⟨prices, hprices⟩ := exists_forall₂ hpriced
  obtain ⟨d', hrun, -, hstreams⟩ := streams_runAll h prices
  refine ⟨d', prices.map BondAlgoStreamingService.streamFor, ?_, hstreams, ?_⟩
  · show readLines BondPricingConnector.decode _ [] (dataLines content) d = _
    rw [readLines_eq_runAll _ _ (hprices.imp fun _ _ hp => hp.1)]
    exact hrun
  · rw [List.forall₂_map_right_iff]
    exact hprices.imp fun _ _ hp => hp.2

/-- Two quotes of one note, with a spread of half a 32nd and with none. -/
def twoQuotes : String := "h\n912828M72,99-16+,0-004\n912828M72,100-000,0-000"

/-- The theorem at the desk of `main` and these quotes. -/
theorem streams_exact_twoQuotes :
    ∃ d' streams, BondPricingConnector.readFile (fun price d => .done (onPrice price d))
        (some twoQuotes) (wired true fun _ => none) = .done d' ∧
      d'.streamingSrv.bondPriceStream =
        (wired true fun _ => none).streamingSrv.bondPriceStream ++ streams ∧
      List.Forall₂ StreamOf (dataLines twoQuotes) streams := by
  have hlines : dataLines twoQuotes =
      ["912828M72,99-16+,0-004".toList, "912828M72,100-000,0-000".toList] := by decide +kernel
  refine streams_exact (wired_wired true _) fun line hline => ?_
  rw [hlines] at hline
  rcases List.mem_cons.mp hline with rfl | hline
  · refine ⟨"912828M72", 99, 16, 4, 0, 0, 4, "99-16+", "0-004", by decide, by decide,
      ⟨['9', '9'], '1', '6', '+', ?_⟩, ⟨['0'], '0', '0', '4', ?_⟩⟩ <;> decide
  · rw [List.mem_singleton.mp hline]
    refine ⟨"912828M72", 100, 0, 0, 0, 0, 0, "100-000", "0-000", by decide, by decide,
      ⟨['1', '0', '0'], '0', '0', '0', ?_⟩, ⟨['0'], '0', '0', '0', ?_⟩⟩ <;> decide

end Desk

end BondTrading
