/-
  File:      BondTrading/Listeners.lean
  Subject:   WHO HEARS OF WHAT ENTERS A SERVICE: the observer contract of the base class `Service`
             (soa.hpp), service by service.

  A service is seen as its `AddListener` and the operations its data come in by. `ι` names the
  listeners of all of them.

  * `tellsAll_trades` to `tellsAll_orders` -- six services tell every listener every datum;
  * `BondRiskService.accept` -- the seventh keeps a list it never reads: `AddPosition` calls the
    historical listeners only, `OnMessage` nobody;
  * `allHear_iff` -- so all seven keep the contract exactly in the runs where no datum reaches the
    risk service once somebody has registered there.
-/
import BondTrading.Library.Observers
import BondTrading.Risk
import BondTrading.Execution
import BondTrading.Pricing

namespace BondTrading

open Cxx

variable {ι κ : Type}

/-! ## 1. Six services that tell everybody -/

/-- The two ways a position comes in. -/
inductive PositionInput where
  | onMessage (position : Position)
  | addTrade (trade : Trade)

/-- The position a listener is handed: the one that came, or the trade's own. -/
def PositionInput.view : PositionInput → Position
  | .onMessage position => position
  | .addTrade trade => .ofTrade trade

def BondPositionService.accept (input : PositionInput) (s : BondPositionService ι) :
    BondPositionService ι × List (ι × Position) :=
  match input with
  | .onMessage position => (s, s.onMessage position)
  | .addTrade trade => s.addTrade trade

/-- The two ways a price stream comes in. -/
inductive StreamInput where
  | onMessage (stream : PriceStream)
  | publishPrice (stream : PriceStream)

def StreamInput.view : StreamInput → PriceStream
  | .onMessage stream => stream
  | .publishPrice stream => stream

def BondStreamingService.accept (input : StreamInput) (s : BondStreamingService ι) :
    BondStreamingService ι × List (ι × PriceStream) :=
  match input with
  | .onMessage stream => s.onMessage stream
  | .publishPrice stream => s.publishPrice stream

theorem tellsAll_trades : TellsAll BondTradeBookingService.listenersList
    (BondTradeBookingService.addListener (ι := ι)) BondTradeBookingService.onMessage id where
  register _ _ := rfl
  keeps _ _ := rfl
  tells _ _ := rfl

theorem tellsAll_positions : TellsAll BondPositionService.listenerList
    (BondPositionService.addListener (ι := ι)) BondPositionService.accept PositionInput.view where
  register _ _ := rfl
  keeps input s := by
    cases input with
    | onMessage position => rfl
    | addTrade trade =>
        show (s.addTrade trade).1.listenerList = _
        rw [BondPositionService.addTrade_eq]
  tells input s := by
    cases input with
    | onMessage position => rfl
    | addTrade trade =>
        show (s.addTrade trade).2 = _
        rw [BondPositionService.addTrade_eq]
        rfl

theorem tellsAll_prices : TellsAll BondPricingService.listenerList
    (BondPricingService.addListener (ι := ι)) BondPricingService.onMessage id where
  register _ _ := rfl
  keeps _ _ := rfl
  tells _ _ := rfl

theorem tellsAll_streams : TellsAll BondStreamingService.listenerList
    (BondStreamingService.addListener (ι := ι)) BondStreamingService.accept StreamInput.view where
  register _ _ := rfl
  keeps input _ := by cases input <;> rfl
  tells input _ := by cases input <;> rfl

theorem tellsAll_books : TellsAll BondMarketDataService.listenerList
    (BondMarketDataService.addListener (ι := ι)) BondMarketDataService.onMessage id where
  register _ _ := rfl
  keeps _ _ := rfl
  tells _ _ := rfl

theorem tellsAll_orders : TellsAll BondExecutionService.listenerList
    (BondExecutionService.addListener (ι := ι)) BondExecutionService.onMessage id where
  register _ _ := rfl
  keeps _ _ := rfl
  tells _ _ := rfl

/-! ## 2. The risk service -/

/-- The two ways data come in; a position comes with the value of the uninitialised local of its
    `GetAggregatePosition`. -/
inductive RiskInput where
  | addPosition (position : Position) (result : ℤ)
  | onMessage (data : PV01)

/-- One call of the risk service: its state, and whom it calls, of the listeners of `AddListener`
    and of `AddHistoricalDataListener`. -/
def BondRiskService.accept (input : RiskInput) (s : BondRiskService ι κ) :
    BondRiskService ι κ × List (ι ⊕ κ) :=
  match input with
  | .addPosition position result =>
      let (s, calls) := s.addPosition result position
      (s, calls.map fun call => .inr call.1)
  | .onMessage data => (s.onMessage data, [])

/-- The calls to the listeners of `AddListener`. -/
def BondRiskService.calledListeners (input : RiskInput) (s : BondRiskService ι κ) :
    BondRiskService ι κ × List (ι × Unit) :=
  let (s, called) := s.accept input
  (s, called.filterMap fun who => who.getLeft?.map fun l => (l, ()))

/-- Nobody of the listeners of `AddListener` is ever called. -/
theorem BondRiskService.calledListeners_nil (input : RiskInput) (s : BondRiskService ι κ) :
    (s.calledListeners input).2 = [] := by
  cases input with
  | onMessage data => rfl
  | addPosition position result =>
      show List.filterMap _ (List.map _ _) = []
      rw [List.filterMap_map]
      exact List.filterMap_eq_nil_iff.mpr fun call _ => rfl

theorem BondRiskService.heard_eq_nil (es : List (Event ι RiskInput)) (s : BondRiskService ι κ) :
    heard BondRiskService.addListener BondRiskService.calledListeners es s = [] := by
  induction es generalizing s with
  | nil => rfl
  | cons e es ih =>
      cases e with
      | register l => exact ih _
      | datum input =>
          show (s.calledListeners input).2 ++ heard _ _ es _ = []
          rw [calledListeners_nil, ih, List.append_nil]

/-! ## 3. All seven -/

/-- What happens at the seven services: registrations and data, in any order. -/
structure Histories (ι : Type) where
  trades : List (Event ι Trade)
  positions : List (Event ι PositionInput)
  risk : List (Event ι RiskInput)
  prices : List (Event ι Price)
  streams : List (Event ι StreamInput)
  books : List (Event ι OrderBook)
  orders : List (Event ι ExecutionOrder)

/-- **Every listener hears every datum**: at each service the calls made are the calls due. Of the
    risk service only who is called is asked; `hs` are its historical listeners. -/
structure AllHear (h : Histories ι) (hs : List κ) : Prop where
  trades : heard BondTradeBookingService.addListener BondTradeBookingService.onMessage h.trades
    .empty = due id h.trades []
  positions : heard BondPositionService.addListener BondPositionService.accept h.positions
    .empty = due PositionInput.view h.positions []
  risk : heard BondRiskService.addListener BondRiskService.calledListeners h.risk ⟨[], hs, []⟩ =
    due (fun _ => ()) h.risk []
  prices : heard BondPricingService.addListener BondPricingService.onMessage h.prices
    .empty = due id h.prices []
  streams : heard BondStreamingService.addListener BondStreamingService.accept h.streams
    .empty = due StreamInput.view h.streams []
  books : heard BondMarketDataService.addListener BondMarketDataService.onMessage h.books
    .empty = due id h.books []
  orders : heard BondExecutionService.addListener BondExecutionService.onMessage h.orders
    .empty = due id h.orders []

/-- No datum reaches the risk service after a registration there. -/
def RiskUnobserved (risk : List (Event ι RiskInput)) : Prop :=
  ∀ pre input post, risk = pre ++ .datum input :: post → ∀ l, .register l ∉ pre

/-- **The observer contract holds of all seven services exactly as long as the risk service has
    nobody to tell.** -/
theorem allHear_iff (h : Histories ι) (hs : List κ) : AllHear h hs ↔ RiskUnobserved h.risk := by
  have hdue : due (fun _ => ()) h.risk ([] : List ι) = [] ↔ RiskUnobserved h.risk := by
    rw [due_eq_nil_iff]
    refine forall_congr' fun pre => forall_congr' fun input => forall_congr' fun post => ?_
    exact ⟨fun hall he => (hall he).2, fun hall he => ⟨rfl, hall he⟩⟩
  refine ⟨fun hall => ?_, fun hnone => ?_⟩
  · have hrisk := hall.risk
    rw [BondRiskService.heard_eq_nil] at hrisk
    exact hdue.mp hrisk.symm
  · exact { trades := tellsAll_trades.heard_eq h.trades .empty
            positions := tellsAll_positions.heard_eq h.positions .empty
            risk := (BondRiskService.heard_eq_nil h.risk _).trans (hdue.mpr hnone).symm
            prices := tellsAll_prices.heard_eq h.prices .empty
            streams := tellsAll_streams.heard_eq h.streams .empty
            books := tellsAll_books.heard_eq h.books .empty
            orders := tellsAll_orders.heard_eq h.orders .empty }

/-- A listener registers at the risk service, then a position comes in. -/
def guiWaits : List (Event String RiskInput) :=
  [.register "gui", .datum (.addPosition Position.default 0)]

/-- One call is due, none is made. -/
theorem riskListener_unheard :
    heard BondRiskService.addListener BondRiskService.calledListeners guiWaits
        (⟨[], ["risk.txt"], []⟩ : BondRiskService String String) = [] ∧
      due (fun _ => ()) guiWaits [] = [("gui", ())] ∧
      ¬ AllHear ⟨[], [], guiWaits, [], [], [], []⟩ ["risk.txt"] := by
  refine ⟨rfl, rfl, fun h => ?_⟩
  have hrisk := h.risk
  cases hrisk

end BondTrading
