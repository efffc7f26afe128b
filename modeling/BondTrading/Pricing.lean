/-
  File:      BondTrading/Pricing.lean
  Subject:   PRICES AND THE STREAMS MADE FROM THEM (pricingservice.hpp, streamingservice.hpp,
             BondAlgoStreamingService.hpp, BondPricingListener.hpp).

  Both stores are vectors that only grow. The pricing service searches from the front with an `int`
  index, the streaming service from the back with a `long` one.

  * `BondPricingService`, `BondAlgoStreamingService`, `BondStreamingService` -- the code;
  * `getData_first`, `getData_last` -- what the two searches answer: a first message and a last one;
  * `agreeOnLast_iff` -- when they answer from the same message, as far as prices go.

  The product of a stored price is the bond it was made with (the code keeps a reference). The
  listeners of the algorithm itself are never told and left out.
-/
import BondTrading.MarketData

namespace BondTrading

open Cxx

/-! ## 1. Prices -/

structure Price where
  product : Bond
  mid : ℚ
  bidOfferSpread : ℚ
  deriving DecidableEq, Repr

def Price.cusip (price : Price) : String := price.product.productId

structure BondPricingService (ι : Type) where
  bondPrice : List Price
  listenerList : List ι

namespace BondPricingService

variable {ι : Type}

def empty : BondPricingService ι := ⟨[], []⟩

/-- `GetData`; `none` is its `exit(-1)`. -/
def getData (cusip : String) (s : BondPricingService ι) : Option Price :=
  (intLoop s.bondPrice).find? fun price => price.cusip = cusip

/-- `OnMessage`: store the price, then tell the listeners. -/
def onMessage (price : Price) (s : BondPricingService ι) :
    BondPricingService ι × List (ι × Price) :=
  ({ s with bondPrice := s.bondPrice ++ [price] }, notify s.listenerList price)

def addListener (listener : ι) (s : BondPricingService ι) : BondPricingService ι :=
  { s with listenerList := s.listenerList ++ [listener] }

end BondPricingService

/-! ## 2. Streams -/

structure PriceStreamOrder where
  price : ℚ
  visibleQuantity : ℤ
  hiddenQuantity : ℤ
  side : PricingSide
  deriving DecidableEq, Repr

structure PriceStream where
  product : Bond
  bidOrder : PriceStreamOrder
  offerOrder : PriceStreamOrder
  deriving DecidableEq, Repr

def PriceStream.cusip (stream : PriceStream) : String := stream.product.productId

structure BondStreamingService (ι : Type) where
  bondPriceStream : List PriceStream
  listenerList : List ι

namespace BondStreamingService

variable {ι : Type}

def empty : BondStreamingService ι := ⟨[], []⟩

/-- `GetData`: from the last stream to the first; `none` is one of its `exit(-1)`. -/
def getData (cusip : String) (s : BondStreamingService ι) : Option PriceStream :=
  s.bondPriceStream.reverse.find? fun stream => stream.cusip = cusip

/-- `PublishPrice`: store the stream, then tell the listeners. -/
def publishPrice (stream : PriceStream) (s : BondStreamingService ι) :
    BondStreamingService ι × List (ι × PriceStream) :=
  ({ s with bondPriceStream := s.bondPriceStream ++ [stream] }, notify s.listenerList stream)

def onMessage (stream : PriceStream) (s : BondStreamingService ι) :
    BondStreamingService ι × List (ι × PriceStream) :=
  s.publishPrice stream

def addListener (listener : ι) (s : BondStreamingService ι) : BondStreamingService ι :=
  { s with listenerList := s.listenerList ++ [listener] }

end BondStreamingService

namespace BondAlgoStreamingService

variable {ι : Type}

/-- The two-way price around a mid. -/
def streamFor (price : Price) : PriceStream :=
  ⟨price.product, ⟨price.mid - price.bidOfferSpread / 2, 10000000, 0, .bid⟩,
    ⟨price.mid + price.bidOfferSpread / 2, 10000000, 0, .offer⟩⟩

/-- `OnMessage`. -/
def onMessage (price : Price) (streamingService : BondStreamingService ι) :
    BondStreamingService ι × List (ι × PriceStream) :=
  streamingService.publishPrice (streamFor price)

end BondAlgoStreamingService

/-- `BondPricingListener::ProcessAdd`. -/
def BondPricingListener.processAdd {ι : Type} (price : Price)
    (streamingService : BondStreamingService ι) :
    BondStreamingService ι × List (ι × PriceStream) :=
  BondAlgoStreamingService.onMessage price streamingService

/-! ## 3. The connector -/

namespace BondPricingConnector

/-- One line's record as a price. -/
def decode (record : List String) : Except Stop Price := do
  let newBond := Bond.ofCusip (← fieldAt record 0)
  let midPrice ← decimalBondPrice (← fieldAt record 1)
  let spread ← decimalBondPrice (← fieldAt record 2)
  .ok ⟨newBond, midPrice, spread⟩

/-- `ReadFile`; `file = none`: it does not open, and the reader just returns. -/
def readFile {σ : Type} (onMessage : Price → σ → Outcome σ) (file : Option String) (s : σ) :
    Outcome σ :=
  match file with
  | none => .done s
  | some content => readLines decode onMessage [] (dataLines content) s

/-- A record with two readable prices behind its CUSIP is a price of that CUSIP. -/
theorem decode_ok {record : List String} {cusip mid spread : String} {midPrice spreadPrice : ℚ}
    (hc : record[0]? = some cusip) (hm : record[1]? = some mid) (hs : record[2]? = some spread)
    (hmid : decimalBondPrice mid = .ok midPrice)
    (hspread : decimalBondPrice spread = .ok spreadPrice) :
    ∃ price, decode record = .ok price ∧ price.product = Bond.ofCusip cusip := by
  refine ⟨⟨Bond.ofCusip cusip, midPrice, spreadPrice⟩, ?_, rfl⟩
  unfold decode
  rw [fieldAt_eq hc, fieldAt_eq hm, fieldAt_eq hs]
  simp only [hmid, hspread, bind, Except.bind]

end BondPricingConnector

/-! ## 4. What the two stores answer -/

/-- The messages for a product. -/
def messagesFor (cusip : String) (prices : List Price) : List Price :=
  prices.filter fun price => price.cusip = cusip

/-- The pricing store answers with the first message within reach of its index. -/
theorem BondPricingService.getData_first {ι : Type} (s : BondPricingService ι) (cusip : String) :
    s.getData cusip = (messagesFor cusip (intLoop s.bondPrice)).head? := by
  rw [messagesFor, List.head?_filter]
  rfl

/-- The streaming store answers with the stream of the last message. -/
theorem BondStreamingService.getData_last {ι : Type} {s : BondStreamingService ι}
    {prices : List Price}
    (h : s.bondPriceStream = prices.map BondAlgoStreamingService.streamFor) (cusip : String) :
    s.getData cusip =
      (messagesFor cusip prices).getLast?.map BondAlgoStreamingService.streamFor := by
  rw [messagesFor, List.getLast?_filter, BondStreamingService.getData, h, ← List.map_reverse,
    List.find?_map]
  rfl

/-- A stream around the mid of a price, by its spread. -/
def PriceStream.Around (stream : PriceStream) (price : Price) : Prop :=
  stream.bidOrder.price = price.mid - price.bidOfferSpread / 2 ∧
    stream.offerOrder.price = price.mid + price.bidOfferSpread / 2

/-- Bid and offer give the mid and the spread back. -/
theorem around_streamFor {price price' : Price} :
    (BondAlgoStreamingService.streamFor price).Around price' ↔
      price'.mid = price.mid ∧ price'.bidOfferSpread = price.bidOfferSpread := by
  simp only [PriceStream.Around, BondAlgoStreamingService.streamFor]
  constructor
  · intro h
    obtain ⟨hb, ho⟩ := h
    exact ⟨by linarith, by linarith⟩
  · intro h
    obtain ⟨hm, hs⟩ := h
    rw [hm, hs]
    exact ⟨rfl, rfl⟩

/-- **The two stores agree on a product**: both answer, with the mid and the spread of its last
    message, the stream being the one around that price. -/
def AgreeOnLast {ι κ : Type} (prices : List Price) (cusip : String)
    (pricing : BondPricingService ι) (streaming : BondStreamingService κ) : Prop :=
  ∃ last price stream, (messagesFor cusip prices).getLast? = some last ∧
    pricing.getData cusip = some price ∧ streaming.getData cusip = some stream ∧
    price.mid = last.mid ∧ price.bidOfferSpread = last.bidOfferSpread ∧ stream.Around last ∧
    stream.Around price

/-- The first message for a product, if it is among the first 2^31 messages, has the mid and the
    spread of the last one. -/
def FirstLikeLast (prices : List Price) (cusip : String) : Prop :=
  ∃ first last, (messagesFor cusip (prices.take 2147483648)).head? = some first ∧
    (messagesFor cusip prices).getLast? = some last ∧
    first.mid = last.mid ∧ first.bidOfferSpread = last.bidOfferSpread

/-- **When stores filled by the same messages agree.** -/
theorem agreeOnLast_iff {ι κ : Type} {prices : List Price} {pricing : BondPricingService ι}
    {streaming : BondStreamingService κ} (hp : pricing.bondPrice = prices)
    (hs : streaming.bondPriceStream = prices.map BondAlgoStreamingService.streamFor)
    (cusip : String) :
    AgreeOnLast prices cusip pricing streaming ↔ FirstLikeLast prices cusip := by
  unfold AgreeOnLast FirstLikeLast
  rw [BondPricingService.getData_first, BondStreamingService.getData_last hs, hp]
  constructor
  · intro h
    obtain ⟨last, price, stream, hlast, hprice, -, hmid, hspread, -, -⟩ := h
    exact ⟨price, last, hprice, hlast, hmid, hspread⟩
  · intro h
    obtain ⟨first, last, hfirst, hlast, hmid, hspread⟩ := h
    refine ⟨last, first, BondAlgoStreamingService.streamFor last, hlast, hfirst, ?_, hmid, hspread,
      around_streamFor.mpr ⟨rfl, rfl⟩, around_streamFor.mpr ⟨hmid, hspread⟩⟩
    rw [hlast]
    rfl

end BondTrading
