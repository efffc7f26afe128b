/-
  File:      BondTrading/Messages.lean
  Subject:   THE DESK AS A MACHINE OF MESSAGES: trades, prices, order books and inquiries in any
             order.

  `main` reads one file after the other; the services themselves take their messages as they come.

  * `Message`, `deliver` -- one message, and everything it sets off;
  * `Flow`, `services` -- the four ways data takes, and the services each of them goes through;
  * `deliver_done` -- all a message can do; `deliver_own` -- what that depends on;
  * `parted_deliver` -- the desk is a machine of four parts;
  * `interleaved_iff` -- in any interleaving of the four flows each one fares as it would alone.
-/
import BondTrading.Library.Parts
import BondTrading.Accounts
import BondTrading.InquiryRuns

namespace BondTrading

open Cxx

/-! ## 1. Messages -/

/-- What the four readers hand over. -/
inductive Message where
  | trade (trade : Trade)
  | price (price : Price)
  | book (book : OrderBook)
  | inquiry (inquiry : Inquiry)
  deriving DecidableEq, Repr

/-- The ways through the services. -/
inductive Flow where
  | trades | prices | books | inquiries
  deriving DecidableEq, Repr

def Message.flow : Message → Flow
  | .trade _ => .trades
  | .price _ => .prices
  | .book _ => .books
  | .inquiry _ => .inquiries

/-- The report on `f1` at the end of a way. -/
def Flow.report : Flow → Report
  | .trades => .risk
  | .prices => .streaming
  | .books => .executions
  | .inquiries => .allinquires

theorem Flow.report_injective : Function.Injective Flow.report := by
  intro a b h
  cases a <;> cases b <;> first | rfl | cases h

theorem Flow.report_ne_position (flow : Flow) : flow.report ≠ .position := by
  cases flow <;> exact nofun

/-- The archive after positions for the position service, each with the uninitialised local of its
    aggregate. -/
def Archive.runPosition (calls : List (ℤ × Position)) (a : Archive) : Archive :=
  calls.foldl (fun a call => a.positionMessage call.1 call.2) a

namespace Desk

/-- One message comes in. -/
def deliverWith (long : ℤ → ℤ) (uninit : Nat → ℤ) : Message → Desk → Outcome Desk
  | .trade trade, d => .done (onTradeWith long uninit trade d)
  | .price price, d => .done (onPrice price d)
  | .book book, d => onOrderBook book d
  | .inquiry inquiry, d => acceptInquiry inquiry d

/-- The same in whole numbers. -/
def deliver (uninit : Nat → ℤ) : Message → Desk → Outcome Desk
  | .trade trade, d => .done (onTrade uninit trade d)
  | .price price, d => .done (onPrice price d)
  | .book book, d => onOrderBook book d
  | .inquiry inquiry, d => acceptInquiry inquiry d

/-- What the services of one flow hold. -/
inductive Services where
  | trades (tradeSrv : BondTradeBookingService TradeListener)
      (positionSrv : BondPositionService PositionListener)
      (riskSrv : BondRiskService Empty RiskHistoryListener) (reads : Nat)
  | prices (priceSrv : BondPricingService PriceListener)
      (streamingSrv : BondStreamingService StreamListener)
  | books (marketDataSrv : BondMarketDataService BookListener)
      (executionSrv : BondExecutionService OrderListener)
      (algoExecutionSrv : BondAlgoExecutionService)
  | inquiries (inquirySrv : BondInquiryService InquiryDataListener)

def services (d : Desk) : Flow → Services
  | .trades => .trades d.tradeSrv d.positionSrv d.riskSrv d.reads
  | .prices => .prices d.priceSrv d.streamingSrv
  | .books => .books d.marketDataSrv d.executionSrv d.algoExecutionSrv
  | .inquiries => .inquiries d.inquirySrv

/-! ## 2. One message -/

/-- What a message has the services on `f1` write. -/
def f1Calls (uninit : Nat → ℤ) : Message → Desk → List F1Call
  | .trade trade, d =>
      [.risk (d.riskSrv.addPosition (uninit d.reads) (.ofTrade trade)).1.riskPosition]
  | .price price, _ => [.streaming (BondAlgoStreamingService.streamFor price)]
  | .book book, d =>
      match d.algoExecutionSrv.onMessage book d.executionSrv with
      | .error _ => []
      | .ok (_, _, calls) => calls.map fun call => .execution call.2
  | .inquiry inquiry, d =>
      match BondInquiryConnector.accept inquiry d.inquirySrv with
      | .done (_, calls) | .stopped _ (_, calls) => calls.map fun call => .inquiry call.2

/-- What a message has the position service write: a position, and the uninitialised local of its
    aggregate. -/
def positionCalls (uninit : Nat → ℤ) : Message → Desk → List (ℤ × Position)
  | .trade trade, d => [(uninit (d.reads + 1), .ofTrade trade)]
  | _, _ => []

theorem report_of_mem_f1Calls (uninit : Nat → ℤ) (m : Message) (d : Desk) :
    ∀ call ∈ f1Calls uninit m d, call.report = m.flow.report := by
  intro call hcall
  cases m with
  | trade trade => rw [List.mem_singleton.mp hcall]; rfl
  | price price => rw [List.mem_singleton.mp hcall]; rfl
  | book book =>
      simp only [f1Calls] at hcall
      split at hcall
      · cases hcall
      · obtain ⟨c, -, rfl⟩ := List.mem_map.mp hcall
        rfl
  | inquiry inquiry =>
      simp only [f1Calls] at hcall
      split at hcall
      · obtain ⟨c, -, rfl⟩ := List.mem_map.mp hcall
        rfl
      · obtain ⟨c, -, rfl⟩ := List.mem_map.mp hcall
        rfl

theorem positionCalls_other (uninit : Nat → ℤ) {m : Message} (h : m.flow ≠ .trades) (d : Desk) :
    positionCalls uninit m d = [] := by
  cases m <;> first | rfl | exact absurd rfl h

/-- The execution service's listeners, one call after the other. -/
theorem foldl_processOrder (calls : List (OrderListener × ExecutionOrder)) (d : Desk) :
    calls.foldl processOrder d =
      { d with archive := d.archive.runF1 (calls.map fun call => .execution call.2) } := by
  induction calls generalizing d with
  | nil => rfl
  | cons call calls ih =>
      rw [List.foldl_cons, ih]
      rfl

theorem foldl_processInquiry (calls : List (InquiryDataListener × Inquiry)) (d : Desk) :
    calls.foldl processInquiry d =
      { d with archive := d.archive.runF1 (calls.map fun call => .inquiry call.2) } := by
  induction calls generalizing d with
  | nil => rfl
  | cons call calls ih =>
      rw [List.foldl_cons, ih]
      rfl

/-- **Any order book**: it is stored, and the algorithm's order, if it gets to one, is reported. -/
theorem onOrderBook_any {historical : Bool} {d : Desk} (h : Wired historical d)
    (book : OrderBook) :
    onOrderBook book d =
      match d.algoExecutionSrv.onMessage book d.executionSrv with
      | .error why => .stopped why
          { d with marketDataSrv := { d.marketDataSrv with
              bondOrderbook := d.marketDataSrv.bondOrderbook ++ [book] } }
      | .ok (algo, execution, calls) => .done
          { d with
            marketDataSrv := { d.marketDataSrv with
              bondOrderbook := d.marketDataSrv.bondOrderbook ++ [book] }
            executionSrv := execution
            algoExecutionSrv := algo
            archive := d.archive.runF1 (calls.map fun call => .execution call.2) } := by
  unfold onOrderBook BondMarketDataService.onMessage
  simp only [h.marketData, notify_cons, notify_nil, runAll_cons, processBook,
    MarketDataListener.processAdd]
  cases d.algoExecutionSrv.onMessage book d.executionSrv with
  | error why => rfl
  | ok result =>
      obtain ⟨algo, execution, calls⟩ := result
      simp only [foldl_processOrder]
      rfl

/-- **Any inquiry**: what the service makes of it, and what it tells its listeners. -/
theorem acceptInquiry_any (inquiry : Inquiry) (d : Desk) :
    acceptInquiry inquiry d =
      match BondInquiryConnector.accept inquiry d.inquirySrv with
      | .done (inquirySrv, calls) => .done
          { d with
            inquirySrv := inquirySrv
            archive := d.archive.runF1 (calls.map fun call => .inquiry call.2) }
      | .stopped why (inquirySrv, calls) => .stopped why
          { d with
            inquirySrv := inquirySrv
            archive := d.archive.runF1 (calls.map fun call => .inquiry call.2) } := by
  unfold acceptInquiry
  cases BondInquiryConnector.accept inquiry d.inquirySrv with
  | done result => simp only [foldl_processInquiry]
  | stopped why result => simp only [foldl_processInquiry]

end Desk

/-- **What the algorithm leaves of an order book it gets through**: one order more, two times, told
    to every listener. -/
theorem BondAlgoExecutionService.onMessage_ok {ι : Type} {book : OrderBook}
    {algo algo' : BondAlgoExecutionService} {execution execution' : BondExecutionService ι}
    {calls : List (ι × ExecutionOrder)}
    (h : algo.onMessage book execution = .ok (algo', execution', calls)) :
    ∃ level order, opposed (algo.nextSide book.cusip) book = .ok level ∧
      order = marketOrder book (algo.nextSide book.cusip) algo.ordernum level ∧
      algo' = ⟨int32 (algo.ordernum + 1), algo.pricingSides.insert book.cusip
        (if algo.nextSide book.cusip = .bid then .offer else .bid)⟩ ∧
      execution' = { execution with bondOrder := execution.bondOrder ++ [order, order] } ∧
      calls = notify execution.listenerList order := by
  rw [onMessage_eq] at h
  cases hlevel : opposed (algo.nextSide book.cusip) book with
  | error why =>
      rw [hlevel] at h
      cases h
  | ok level =>
      rw [hlevel] at h
      injection h with h
      injection h with halgo h
      injection h with hexecution hcalls
      exact ⟨level, _, rfl, rfl, halgo.symm, hexecution.symm, hcalls.symm⟩

theorem BondInquiryService.listenerList_onMessage {ι : Type} (m : Inquiry)
    (s : BondInquiryService ι) : (s.onMessage m).1.listenerList = s.listenerList := by
  rcases onMessage_cases m s with ⟨-, -, he⟩ | ⟨i, e, -, -, -, -, he⟩ | ⟨-, -, he⟩ <;> rw [he]

/-- Nobody is taken off the inquiry service's list, whether the reader goes on or stops. -/
theorem BondInquiryConnector.listenerList_accept {ι : Type} (inquiry : Inquiry)
    (s : BondInquiryService ι) : (accept inquiry s).state.1.listenerList = s.listenerList := by
  have hfirst := BondInquiryService.listenerList_onMessage inquiry s
  unfold accept
  generalize s.onMessage inquiry = result at hfirst ⊢
  obtain ⟨s', calls⟩ := result
  dsimp only at hfirst ⊢
  split
  · exact hfirst
  · split_ifs
    · exact (BondInquiryService.listenerList_onMessage _ _).trans hfirst
    · exact hfirst

namespace Desk

section Step

variable {uninit : Nat → ℤ} {m : Message} {d d' : Desk} (h : Wired true d)
  (hd : deliver uninit m d = .done d')

include h hd

theorem wired_deliver : Wired true d' := by
  cases m with
  | trade trade => exact Outcome.done.inj hd ▸ wired_onTrade h uninit trade
  | price price => exact Outcome.done.inj hd ▸ wired_onPrice h price
  | book book =>
      rw [deliver, onOrderBook_any h] at hd
      split at hd
      · cases hd
      · rename_i algo execution calls hmessage
        obtain ⟨level, order, -, -, -, rfl, -⟩ := BondAlgoExecutionService.onMessage_ok hmessage
        cases hd
        exact ⟨h.trade, h.position, h.risk, h.price, h.streaming, h.marketData, h.execution,
          h.inquiry⟩
  | inquiry inquiry =>
      have hlist := BondInquiryConnector.listenerList_accept inquiry d.inquirySrv
      rw [deliver, acceptInquiry_any] at hd
      split at hd
      · rename_i inquirySrv calls haccept
        rw [haccept] at hlist
        cases hd
        exact ⟨h.trade, h.position, h.risk, h.price, h.streaming, h.marketData, h.execution,
          hlist.trans h.inquiry⟩
      · cases hd

/-- **All a message can do**: it changes the services of its own flow, and writes its calls. -/
theorem deliver_done :
    (∀ flow, m.flow ≠ flow → d'.services flow = d.services flow) ∧
      d'.archive = (d.archive.runF1 (f1Calls uninit m d)).runPosition (positionCalls uninit m d) := by
  cases m with
  | trade trade =>
      have hd' := Outcome.done.inj hd
      rw [onTrade_eq h] at hd'
      subst hd'
      refine ⟨fun flow hne => ?_, rfl⟩
      cases flow <;> first | rfl | exact absurd rfl hne
  | price price =>
      have hd' := Outcome.done.inj hd
      rw [onPrice_eq h] at hd'
      subst hd'
      refine ⟨fun flow hne => ?_, rfl⟩
      cases flow <;> first | rfl | exact absurd rfl hne
  | book book =>
      rw [deliver, onOrderBook_any h] at hd
      split at hd
      · cases hd
      · rename_i algo execution calls hmessage
        cases hd
        refine ⟨fun flow hne => ?_, ?_⟩
        · cases flow <;> first | rfl | exact absurd rfl hne
        · simp only [f1Calls, positionCalls, hmessage]
          rfl
  | inquiry inquiry =>
      rw [deliver, acceptInquiry_any] at hd
      split at hd
      · rename_i inquirySrv calls haccept
        cases hd
        refine ⟨fun flow hne => ?_, ?_⟩
        · cases flow <;> first | rfl | exact absurd rfl hne
        · simp only [f1Calls, positionCalls, haccept]
          rfl
      · cases hd

end Step

section Own

variable {uninit : Nat → ℤ} {m : Message} {d e d' : Desk}
  (hown : d.services m.flow = e.services m.flow)

include hown

variable (uninit) in
/-- What a message writes depends on the services of its own flow. -/
theorem calls_congr : f1Calls uninit m d = f1Calls uninit m e ∧
    positionCalls uninit m d = positionCalls uninit m e := by
  cases m with
  | trade trade =>
      injection hown with _ _ hrisk hreads
      rw [f1Calls, f1Calls, positionCalls, positionCalls, hrisk, hreads]
      exact ⟨rfl, rfl⟩
  | price price => exact ⟨rfl, rfl⟩
  | book book =>
      injection hown with _ hexecution halgo
      refine ⟨?_, rfl⟩
      rw [f1Calls, f1Calls, hexecution, halgo]
  | inquiry inquiry =>
      injection hown with hinquiry
      refine ⟨?_, rfl⟩
      rw [f1Calls, f1Calls, hinquiry]

/-- **So does what it makes of them**, and whether the desk goes on. -/
theorem deliver_own (hd : Wired true d) (he : Wired true e)
    (h : deliver uninit m d = .done d') :
    ∃ e', deliver uninit m e = .done e' ∧ d'.services m.flow = e'.services m.flow := by
  cases m with
  | trade trade =>
      injection hown with htrade hposition hrisk hreads
      refine ⟨_, rfl, ?_⟩
      rw [← Outcome.done.inj h, onTrade_eq hd, onTrade_eq he]
      simp only [services, Message.flow, htrade, hposition, hrisk, hreads]
  | price price =>
      injection hown with hprice hstreaming
      refine ⟨_, rfl, ?_⟩
      rw [← Outcome.done.inj h, onPrice_eq hd, onPrice_eq he]
      simp only [services, Message.flow, hprice, hstreaming]
  | book book =>
      injection hown with hmarket hexecution halgo
      rw [deliver, onOrderBook_any hd] at h
      rw [deliver, onOrderBook_any he, ← halgo, ← hexecution]
      split at h
      · cases h
      · rename_i algo execution calls hmessage
        refine ⟨_, rfl, ?_⟩
        rw [← Outcome.done.inj h]
        simp only [services, Message.flow, hmarket]
  | inquiry inquiry =>
      injection hown with hinquiry
      rw [deliver, acceptInquiry_any] at h ⊢
      rw [← hinquiry]
      split at h
      · rename_i inquirySrv calls haccept
        refine ⟨_, rfl, ?_⟩
        rw [← Outcome.done.inj h]
        rfl
      · cases h

end Own

end Desk

/-! ## 3. The position report, and the reports on the other stream -/

namespace Archive

/-- **Each stream keeps to its own files.** -/
structure Apart (a : Archive) : Prop where
  f1 : a.f1.target ≠ some "position.txt"
  f2 : a.f2.target = none ∨ a.f2.target = some "position.txt"

theorem apart_fresh (disk : String → Option (List Item)) : (fresh disk).Apart :=
  ⟨nofun, Or.inl rfl⟩

/-- What the position service alone writes: its counter, its stream and its file. -/
def ofPosition (a : Archive) : ℤ × Ofstream String × Option (List Item) :=
  (a.hisPosition, a.f2, a.disk "position.txt")

/-- The services on `f1` leave that alone. -/
theorem ofPosition_f1Message {a : Archive} (h : a.Apart) (call : F1Call) :
    (a.f1Message call).Apart ∧ (a.f1Message call).ofPosition = a.ofPosition := by
  have hout := f1Message_out call a
  obtain ⟨htarget, hdisk⟩ := persist_frame ⟨a.f1, a.disk⟩ (f1Call_file_ne call) h.f1
    call.report.header call.record (a.num call.report)
  rw [← hout] at htarget hdisk
  have hnum : (a.f1Message call).hisPosition = a.hisPosition := by cases call <;> rfl
  have hf2 := f1Message_f2 call a
  refine ⟨⟨htarget, by rw [hf2]; exact h.f2⟩, ?_⟩
  rw [ofPosition, hnum, hf2, show (a.f1Message call).disk "position.txt" = _ from hdisk]
  rfl

theorem ofPosition_runF1 {a : Archive} (h : a.Apart) (calls : List F1Call) :
    (a.runF1 calls).Apart ∧ (a.runF1 calls).ofPosition = a.ofPosition := by
  induction calls generalizing a with
  | nil => exact ⟨h, rfl⟩
  | cons call calls ih =>
      obtain ⟨happart, hsame⟩ := ofPosition_f1Message h call
      obtain ⟨happart', hsame'⟩ := ih happart
      exact ⟨happart', hsame'.trans hsame⟩

theorem apart_positionMessage {a : Archive} (h : a.Apart) (result : ℤ) (data : Position) :
    (a.positionMessage result data).Apart := by
  have htarget := persist_target Report.position.file Report.position.header
    (positionRecord result data) (a.num .position) ⟨a.f2, a.disk⟩
  rw [← positionMessage_out] at htarget
  refine ⟨h.f1, ?_⟩
  rcases htarget with htarget | htarget
  · exact Or.inr htarget
  · rw [show (a.positionMessage result data).f2.target = a.f2.target from htarget]
    exact h.f2

/-- What a position makes of it depends on nothing else. -/
theorem ofPosition_positionMessage {a b : Archive} (h : a.Apart)
    (hsame : a.ofPosition = b.ofPosition) (result : ℤ) (data : Position) :
    (a.positionMessage result data).ofPosition = (b.positionMessage result data).ofPosition := by
  injection hsame with hnum hsame
  injection hsame with hf2 hdisk
  have hstreams : (⟨a.f2, a.disk⟩ : Output String Item).stream =
      (⟨b.f2, b.disk⟩ : Output String Item).stream := hf2
  obtain ⟨hstream, hfile⟩ := persist_own Report.position.file hstreams h.f2 hdisk
    Report.position.header (positionRecord result data) (a.num .position)
  have hnum' : b.num .position = a.num .position := hnum.symm
  have ha := positionMessage_out result data a
  have hb := positionMessage_out result data b
  rw [hnum'] at hb
  rw [← ha, ← hb] at hstream hfile
  have hcount : (a.positionMessage result data).hisPosition =
      (b.positionMessage result data).hisPosition :=
    congrArg (fun n => int32 (n + 1)) hnum
  rw [ofPosition, ofPosition, hcount]
  exact congrArg₂ _ rfl (congrArg₂ Prod.mk hstream hfile)

/-- The counter of a report none of the calls is for. -/
theorem num_runF1_other {report : Report} {calls : List F1Call}
    (h : ∀ call ∈ calls, call.report ≠ report) (a : Archive) :
    (a.runF1 calls).num report = a.num report := by
  induction calls generalizing a with
  | nil => rfl
  | cons call calls ih =>
      have hcall := h call List.mem_cons_self
      show ((a.f1Message call).runF1 calls).num report = _
      rw [ih (fun c hc => h c (List.mem_cons_of_mem _ hc)), f1Message_num,
        Function.update_of_ne (Ne.symm hcall)]

theorem num_runF1_congr {report : Report} {a b : Archive} (h : a.num report = b.num report)
    (calls : List F1Call) : (a.runF1 calls).num report = (b.runF1 calls).num report := by
  induction calls generalizing a b with
  | nil => exact h
  | cons call calls ih =>
      refine ih ?_
      rw [f1Message_num, f1Message_num]
      by_cases hr : report = call.report
      · subst hr
        rw [Function.update_self, Function.update_self]
        exact congrArg (fun n => int32 (n + 1)) h
      · rw [Function.update_of_ne hr, Function.update_of_ne hr, h]

theorem num_runPosition {report : Report} (h : report ≠ .position) (calls : List (ℤ × Position))
    (a : Archive) : (a.runPosition calls).num report = a.num report := by
  induction calls generalizing a with
  | nil => rfl
  | cons call calls ih =>
      show ((a.positionMessage call.1 call.2).runPosition calls).num report = _
      rw [ih, positionMessage_num, Function.update_of_ne h]

theorem apart_runPosition {a : Archive} (h : a.Apart) (calls : List (ℤ × Position)) :
    (a.runPosition calls).Apart := by
  induction calls generalizing a with
  | nil => exact h
  | cons call calls ih => exact ih (apart_positionMessage h call.1 call.2)

theorem ofPosition_runPosition {a b : Archive} (h : a.Apart) (hsame : a.ofPosition = b.ofPosition)
    (calls : List (ℤ × Position)) :
    (a.runPosition calls).ofPosition = (b.runPosition calls).ofPosition := by
  induction calls generalizing a b with
  | nil => exact hsame
  | cons call calls ih =>
      exact ih (apart_positionMessage h call.1 call.2)
        (ofPosition_positionMessage h hsame call.1 call.2)

end Archive

/-! ## 4. Four parts -/

namespace Desk

/-- **What belongs to a flow**: what its services hold, the number of its report's next record, and,
    for the trades, the position report. -/
def part (flow : Flow) (d : Desk) :
    Services × ℤ × Option (ℤ × Ofstream String × Option (List Item)) :=
  (d.services flow, d.archive.num flow.report,
    if flow = .trades then some d.archive.ofPosition else none)

/-- The desk is wired as in `main`, and its streams keep to their files. -/
structure Steady (d : Desk) : Prop where
  wired : Wired true d
  apart : d.archive.Apart

theorem steady_wired (disk : String → Option (List Item)) : Steady (wired true disk) :=
  ⟨wired_wired true disk, Archive.apart_fresh disk⟩

section Parts

variable {uninit : Nat → ℤ} {m : Message} {d e d' : Desk}

theorem steady_deliver (h : Steady d) (hd : deliver uninit m d = .done d') : Steady d' := by
  refine ⟨wired_deliver h.wired hd, ?_⟩
  rw [(deliver_done h.wired hd).2]
  exact Archive.apart_runPosition (Archive.ofPosition_runF1 h.apart _).1 _

/-- A message leaves what belongs to the other flows as it is. -/
theorem part_other (h : Steady d) (hd : deliver uninit m d = .done d') {flow : Flow}
    (hne : m.flow ≠ flow) : d'.part flow = d.part flow := by
  obtain ⟨hservices, harchive⟩ := deliver_done h.wired hd
  have hnum : d'.archive.num flow.report = d.archive.num flow.report := by
    rw [harchive, Archive.num_runPosition flow.report_ne_position]
    refine Archive.num_runF1_other (fun call hcall e => hne ?_) _
    exact Flow.report_injective ((report_of_mem_f1Calls uninit m d call hcall).symm.trans e)
  have hposition : flow = .trades → d'.archive.ofPosition = d.archive.ofPosition := by
    rintro rfl
    rw [harchive, positionCalls_other uninit hne]
    exact (Archive.ofPosition_runF1 h.apart _).2
  rw [part, part, hservices flow hne, hnum]
  by_cases ht : flow = .trades
  · rw [if_pos ht, if_pos ht, hposition ht]
  · rw [if_neg ht, if_neg ht]

/-- What a message makes of its own flow depends on that flow alone. -/
theorem part_own (h : Steady d) (he : Steady e) (hpart : d.part m.flow = e.part m.flow)
    (hd : deliver uninit m d = .done d') :
    ∃ e', deliver uninit m e = .done e' ∧ d'.part m.flow = e'.part m.flow := by
  injection hpart with hservices hpart
  injection hpart with hnum hposition
  obtain ⟨e', he', hservices'⟩ := deliver_own hservices h.wired he.wired hd
  obtain ⟨hf1, hcalls⟩ := calls_congr uninit hservices
  have hd' := (deliver_done h.wired hd).2
  have hee' := (deliver_done he.wired he').2
  rw [← hf1, ← hcalls] at hee'
  refine ⟨e', he', ?_⟩
  have hnum' : d'.archive.num m.flow.report = e'.archive.num m.flow.report := by
    rw [hd', hee', Archive.num_runPosition m.flow.report_ne_position,
      Archive.num_runPosition m.flow.report_ne_position]
    exact Archive.num_runF1_congr hnum _
  rw [part, part, hservices', hnum']
  by_cases ht : m.flow = .trades
  · rw [if_pos ht, if_pos ht, Option.some.injEq] at hposition
    obtain ⟨happart, hsame⟩ := Archive.ofPosition_runF1 h.apart (f1Calls uninit m d)
    have hsame' := (Archive.ofPosition_runF1 he.apart (f1Calls uninit m d)).2
    rw [if_pos ht, if_pos ht, hd', hee', Archive.ofPosition_runPosition happart
      ((hsame.trans hposition).trans hsame'.symm)]
  · rw [if_neg ht, if_neg ht]

end Parts

/-- **The desk is a machine of four parts.** -/
theorem parted_deliver (uninit : Nat → ℤ) :
    Parted (deliver uninit) Message.flow part Steady where
  keeps := steady_deliver
  frame h hd hne := part_other h hd hne
  own := part_own

/-- The messages of one flow. -/
def flowOf (flow : Flow) (ms : List Message) : List Message := ownOf Message.flow flow ms

/-- **The flows do not disturb each other**: messages in any order get through exactly when those of
    each flow do on their own; then the services of every flow, the numbers of the reports and the
    whole position report are what that flow alone would have left, and any other order of the
    messages that keeps the order of each flow leaves the same. -/
theorem interleaved_iff (uninit : Nat → ℤ) (disk : String → Option (List Item))
    (ms : List Message) :
    ((∃ d, runAll (deliver uninit) ms (wired true disk) = .done d) ↔
      ∀ flow, ∃ d, runAll (deliver uninit) (flowOf flow ms) (wired true disk) = .done d) ∧
    ∀ d, runAll (deliver uninit) ms (wired true disk) = .done d →
      (∀ flow alone, runAll (deliver uninit) (flowOf flow ms) (wired true disk) = .done alone →
        d.part flow = alone.part flow) ∧
      ∀ ms', (∀ flow, flowOf flow ms = flowOf flow ms') →
        ∃ d', runAll (deliver uninit) ms' (wired true disk) = .done d' ∧
          ∀ flow, d.part flow = d'.part flow := by
  have hsteady := steady_wired disk
  refine ⟨(parted_deliver uninit).run_iff hsteady ms, fun d hd => ⟨fun flow alone halone => ?_,
    fun ms' hms => (parted_deliver uninit).reorder hsteady hms hd⟩⟩
  obtain ⟨t, ht, hpart⟩ := (parted_deliver uninit).purge flow hsteady hsteady rfl hd
  rw [hpart, Outcome.done.inj (ht.symm.trans halone)]

end Desk

end BondTrading
