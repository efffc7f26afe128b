/-
  File:      BondTrading/TradeBooking.lean
  Subject:   TRADES AND THE SERVICE THAT BOOKS THEM (tradebookingservice.hpp).

  A `long` quantity is an integer; what the sums do at the ends of its range is the matter of those
  who add (Position.lean, Risk.lean). `ι` names the objects that listen; which objects these are is
  the wiring's business (Desk.lean).
-/
import BondTrading.Products
import Mathlib.Algebra.BigOperators.Group.List.Basic
import Mathlib.Tactic.Ring

namespace BondTrading

open Cxx

inductive Side where
  | buy | sell
  deriving DecidableEq, Repr

/-- The two texts a file writes a side with. -/
def Side.text : Side → String
  | .buy => "BUY"
  | .sell => "SELL"

structure Trade where
  product : Bond
  tradeId : String
  book : String
  quantity : ℤ
  side : Side
  deriving DecidableEq, Repr

/-- The CUSIP a trade is booked under. -/
def Trade.cusip (trade : Trade) : String := trade.product.productId

/-- What a trade adds to a position: its quantity, negative for a sale. -/
def Trade.signed (trade : Trade) : ℤ :=
  match trade.side with
  | .buy => trade.quantity
  | .sell => -trade.quantity

/-! ## 1. Net quantities -/

/-- The quantity traded on one side by the trades `p` picks. -/
def tradedOn (side : Side) (p : Trade → Bool) (trades : List Trade) : ℤ :=
  ((trades.filter fun t => p t && t.side == side).map Trade.quantity).sum

/-- **The net traded quantity** of the trades `p` picks: bought minus sold. -/
def netTraded (p : Trade → Bool) (trades : List Trade) : ℤ :=
  tradedOn .buy p trades - tradedOn .sell p trades

theorem netTraded_concat (p : Trade → Bool) (trades : List Trade) (t : Trade) :
    netTraded p (trades ++ [t]) = netTraded p trades + if p t then t.signed else 0 := by
  unfold netTraded tradedOn
  simp only [List.filter_append, List.map_append, List.sum_append, List.filter_cons,
    List.filter_nil]
  cases hp : p t <;> cases hs : t.side <;> simp [hs, Trade.signed] <;> ring

/-- The net traded quantity of a product. -/
def netProduct (trades : List Trade) (cusip : String) : ℤ :=
  netTraded (fun t => t.cusip = cusip) trades

/-- The net traded quantity of a product in one book. -/
def netBook (trades : List Trade) (cusip book : String) : ℤ :=
  netTraded (fun t => t.cusip = cusip && t.book = book) trades

theorem netProduct_concat (trades : List Trade) (t : Trade) (cusip : String) :
    netProduct (trades ++ [t]) cusip =
      netProduct trades cusip + if t.cusip = cusip then t.signed else 0 := by
  unfold netProduct
  rw [netTraded_concat]
  simp only [decide_eq_true_eq]

theorem netBook_concat (trades : List Trade) (t : Trade) (cusip book : String) :
    netBook (trades ++ [t]) cusip book =
      netBook trades cusip book + if t.cusip = cusip ∧ t.book = book then t.signed else 0 := by
  unfold netBook
  rw [netTraded_concat]
  simp only [Bool.and_eq_true, decide_eq_true_eq]

/-! ## 2. The service -/

structure BondTradeBookingService (ι : Type) where
  tradesBook : List Trade
  listenersList : List ι

namespace BondTradeBookingService

variable {ι : Type}

def empty : BondTradeBookingService ι := ⟨[], []⟩

/-- `GetData`; `none` is its `exit(-1)`. -/
def getData (tradeId : String) (s : BondTradeBookingService ι) : Option Trade :=
  s.tradesBook.find? fun trade => trade.tradeId = tradeId

def bookTrade (trade : Trade) (s : BondTradeBookingService ι) : BondTradeBookingService ι :=
  { s with tradesBook := s.tradesBook ++ [trade] }

/-- `OnMessage`: book the trade, then tell the listeners. -/
def onMessage (trade : Trade) (s : BondTradeBookingService ι) :
    BondTradeBookingService ι × List (ι × Trade) :=
  (s.bookTrade trade, notify s.listenersList trade)

def addListener (listener : ι) (s : BondTradeBookingService ι) : BondTradeBookingService ι :=
  { s with listenersList := s.listenersList ++ [listener] }

end BondTradeBookingService

/-! ## 3. The connector -/

namespace BondTradeBookingConnector

/-- One line's record as a trade; any side text but one that starts with `S` is a purchase. -/
def decode (record : List String) : Except Stop Trade := do
  let newB := Bond.ofCusip (← fieldAt record 0)
  let id ← fieldAt record 1
  let book ← fieldAt record 2
  let quantity ← stol (← fieldAt record 3).toList
  let side ← fieldAt record 4
  .ok ⟨newB, id, book, quantity, if side.toList.head? = some 'S' then .sell else .buy⟩

/-- `ReadFile`; `file = none`: it does not open. -/
def readFile {σ : Type} (onMessage : Trade → σ → Outcome σ) (file : Option String) (s : σ) :
    Outcome σ :=
  match file with
  | none => .stopped .exit s
  | some content => readLines decode onMessage [] (dataLines content) s

/-- A record with five fields whose fourth is read as a number is a trade. -/
theorem decode_fields {record : List String} {cusip id book quantity side : String} {n : ℤ}
    (hc : record[0]? = some cusip) (hi : record[1]? = some id) (hb : record[2]? = some book)
    (hq : record[3]? = some quantity) (hs : record[4]? = some side)
    (hn : stol quantity.toList = .ok n) :
    decode record = .ok ⟨Bond.ofCusip cusip, id, book, n,
      if side.toList.head? = some 'S' then .sell else .buy⟩ := by
  unfold decode
  rw [fieldAt_eq hc, fieldAt_eq hi, fieldAt_eq hb, fieldAt_eq hq, fieldAt_eq hs]
  simp only [hn, bind, Except.bind]

/-- A record with its five fields, whose fourth is a `long` in decimal, is a trade in the bond of
    its first. -/
theorem decode_ok {record : List String} {cusip quantity : String} {n : ℤ}
    (hlen : 5 ≤ record.length) (hc : record[0]? = some cusip) (hq : record[3]? = some quantity)
    (hn : LongText quantity.toList n) :
    ∃ trade, decode record = .ok trade ∧ trade.product = Bond.ofCusip cusip := by
  have h1 : record[1]? = some record[1] := List.getElem?_eq_getElem (by omega)
  have h2 : record[2]? = some record[2] := List.getElem?_eq_getElem (by omega)
  have h4 : record[4]? = some record[4] := List.getElem?_eq_getElem (by omega)
  exact ⟨_, decode_fields hc h1 h2 hq h4 (stol_longText hn), rfl⟩

end BondTradeBookingConnector

end BondTrading
