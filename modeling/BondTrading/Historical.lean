/-
  File:      BondTrading/Historical.lean
  Subject:   THE REPORTS (historicaldataservice.hpp): five services that number what they are
             given and write it to a file each, four of them through one stream.

  A file is the list of what was inserted into it: a field with its width, or the end of a line. How
  a field is set in characters (padding, and `fixed`, which stays on for the stream) is the matter of
  `BondTrading.ReportText`.

  * `HistoricalDataService` -- `OnMessage` and `PersistData`, which the five services write out
    alike, with the report's file, header and `Publish` as parameters;
  * `Archive` -- the five counters, the streams `f1` and `f2`, and the disk;
  * `routed_iff` -- any interleaving of the four services that share `f1` is routed right exactly
    when no service comes back after another one;
  * `rowsOf_report` -- a report of single-line records read back as rows; `PositionLog` and
    `positionLog_positionMessage` -- the position report while it grows, row by row;
  * `figure_bucketRisks`, `bucketedRisk_agrees` -- the bucket figures of the risk report are the
    risk service's own;
  * `losesNoRisk_run` -- and together they are the risk of all entries.
-/
import BondTrading.Library.Files
import BondTrading.Execution
import BondTrading.Pricing
import BondTrading.Inquiry
import BondTrading.Risk

namespace BondTrading

open Cxx

/-! ## 1. Texts -/

def pricingSideOutput (side : PricingSide) : String :=
  if side = .bid then "BID" else "OFFER"

def orderTypeOutput (type : OrderType) : String :=
  if type = .fok then "FOK"
  else if type = .ioc then "IOC"
  else if type = .market then "MARKET"
  else if type = .limit then "LIMIT"
  else "STOP"

def sideOutput (side : Side) : String :=
  if side = .buy then "BUY" else "SELL"

def stateOutput (state : InquiryState) : String :=
  if state = .received then "RECEIVED"
  else if state = .quoted then "QUOTED"
  else if state = .done then "DONE"
  else if state = .rejected then "REJECTED"
  else "CUSTOMER_REJECTED"

/-- The bucket of a CUSIP. -/
def bondExpiry (cusip : String) : String :=
  if cusip = "912828M72" ∨ cusip = "912828N22" ∨ cusip = "912828M98" then "FrontEnd"
  else if cusip = "912828M80" ∨ cusip = "912828M56" then "Belly"
  else if cusip = "912810RP5" then "LongEnd"
  else "Other"

/-! ## 2. What is inserted into a file -/

/-- A value that is inserted; a floating-point number as it is computed. -/
inductive Value where
  | text (s : String)
  | long (n : ℤ)
  | double (f : Formula)
  | coupon (c : Option ℚ)
  | date (d : Option Date)
  deriving DecidableEq, Repr

/-- A field behind `setw(width)` (0: no `setw`), or `endl`. -/
inductive Item where
  | field (width : Nat) (value : Value)
  | endl
  deriving DecidableEq, Repr

/-- A field of text. -/
def Item.text (width : Nat) (s : String) : Item := .field width (.text s)

def Item.long (width : Nat) (n : ℤ) : Item := .field width (.long n)

/-- The first field of a record. -/
def Item.key (k : ℤ) : Item := .text 5 (toString k)

/-- The four blanks between the fields that have no width. -/
def Item.gap : Item := .text 0 "    "

/-- The lines of a report. -/
def rowsOf (content : List Item) : List (List Item) := getlines .endl content

/-! ## 3. Publish -/

/-- `BondHistoricalPositionDataConnector::Publish`; `result` is the uninitialised local of its
    `GetAggregatePosition` call. -/
def BondHistoricalPositionDataConnector.publishWith (long : ℤ → ℤ) (result : ℤ) (data : Position) :
    List Item :=
  [.text 13 data.product.productId, .field 10 (.coupon data.product.coupon), .gap,
    .field 0 (.date data.product.maturityDate),
    .long 20 (data.getAggregatePositionWith long result),
    .long 10 (data.getPosition "TRSY1"), .long 10 (data.getPosition "TRSY2"),
    .long 10 (data.getPosition "TRSY3"), .endl]

/-- The same with the aggregate in whole numbers. -/
def BondHistoricalPositionDataConnector.publish : ℤ → Position → List Item :=
  BondHistoricalPositionDataConnector.publishWith id

namespace BondHistoricalRiskDataConnector

/-- The body of the loop over the entries: one of the front end, belly and long end risk grows. -/
def addRisk (risks : Formula × Formula × Formula) (entry : PV01) : Formula × Formula × Formula :=
  let (frontEndRisk, bellyRisk, longEndRisk) := risks
  if bondExpiry entry.product.productId = "FrontEnd" then
    (.add frontEndRisk (.mul (.long entry.quantity) (.literal entry.pv01)), bellyRisk, longEndRisk)
  else if bondExpiry entry.product.productId = "Belly" then
    (frontEndRisk, .add bellyRisk (.mul (.long entry.quantity) (.literal entry.pv01)), longEndRisk)
  else if bondExpiry entry.product.productId = "LongEnd" then
    (frontEndRisk, bellyRisk, .add longEndRisk (.mul (.long entry.quantity) (.literal entry.pv01)))
  else (frontEndRisk, bellyRisk, longEndRisk)

/-- The three figures, as they are computed. -/
def bucketFormulas (data : List PV01) : Formula × Formula × Formula :=
  data.foldl addRisk (.literal 0, .literal 0, .literal 0)

/-- The three figures in exact rationals. -/
def bucketRisks (data : List PV01) : ℚ × ℚ × ℚ :=
  ((bucketFormulas data).1.exact, (bucketFormulas data).2.1.exact, (bucketFormulas data).2.2.exact)

/-- One entry's line; the first one goes on behind the bucket figures. -/
def entryItems (entry : PV01) (i : Nat) : List Item :=
  (if i = 0 then [.gap, .text 0 entry.product.productId]
    else [.text 78 entry.product.productId]) ++
  [.gap, .field 0 (.coupon entry.product.coupon), .gap,
    .field 0 (.date entry.product.maturityDate), .gap,
    .field 0 (.double (.mul (.long entry.quantity) (.literal entry.pv01))), .endl]

/-- `BondHistoricalRiskDataConnector::Publish`. -/
def publish (data : List PV01) : List Item :=
  [.field 20 (.double (bucketFormulas data).1), .field 20 (.double (bucketFormulas data).2.1),
    .field 20 (.double (bucketFormulas data).2.2)] ++
  data.zipIdx.flatMap fun (entry, i) => entryItems entry i

end BondHistoricalRiskDataConnector

/-- `BondHistoricalExecutionDataConnector::Publish`; the last field is constant. -/
def BondHistoricalExecutionDataConnector.publish (data : ExecutionOrder) : List Item :=
  [.text 15 data.product.productId, .text 10 (pricingSideOutput data.side), .text 10 data.orderId,
    .text 13 (orderTypeOutput data.orderType), .text 10 (fractionalBondPrice data.price),
    .long 18 data.visibleQuantity, .long 18 data.hiddenQuantity, .text 18 data.parentOrderId,
    .text 15 "FALSE", .endl]

/-- `BondHistoricalStreamingDataConnector::Publish`. -/
def BondHistoricalStreamingDataConnector.publish (data : PriceStream) : List Item :=
  [.text 15 data.product.productId, .text 15 (fractionalBondPrice data.bidOrder.price),
    .long 15 data.bidOrder.visibleQuantity, .text 15 (fractionalBondPrice data.offerOrder.price),
    .long 15 data.offerOrder.visibleQuantity, .endl]

/-- `BondHistoricalInquiryDataConnector::Publish`. -/
def BondHistoricalInquiryDataConnector.publish (data : Inquiry) : List Item :=
  [.text 13 data.inquiryId, .text 15 data.product.productId, .text 10 (sideOutput data.side),
    .long 15 data.quantity, .text 15 (fractionalBondPrice data.price),
    .text 10 (stateOutput data.state), .endl]

/-! ## 4. The five services -/

namespace HistoricalDataService

/-- `PersistData` of a service with the given file, header and `Publish`, over its counter and its
    stream. -/
def persistData (file : String) (header publish : List Item) (persistKey : String) (num : ℤ)
    (out : Output String Item) : ℤ × Output String Item :=
  let out := if num = 1 then (out.close.openFile file).write header else out
  let out := out.write [.text 5 persistKey]
  (int32 (num + 1), out.write publish)

/-- `OnMessage`: the counter is the key. -/
def onMessage (file : String) (header publish : List Item) (num : ℤ)
    (out : Output String Item) : ℤ × Output String Item :=
  persistData file header publish (toString num) num out

/-- A record: its key, and what is published. -/
def record (publish : List Item) (key : ℤ) : List Item := .key key :: publish

/-- **A historical data service is a numbered log.** -/
theorem onMessage_eq (file : String) (header publish : List Item) (num : ℤ)
    (out : Output String Item) :
    onMessage file header publish num out = persist file header (record publish) num out := by
  unfold onMessage persistData persist
  simp only [Output.write_write]
  rfl

end HistoricalDataService

/-- The reports, by the service that writes them. -/
inductive Report where
  | position | risk | executions | streaming | allinquires
  deriving DecidableEq, Repr

namespace Report

def file : Report → String
  | .position => "position.txt"
  | .risk => "risk.txt"
  | .executions => "executions.txt"
  | .streaming => "streaming.txt"
  | .allinquires => "allinquires.txt"

/-- The fields of the header line. -/
def headings : Report → List Item
  | .position => [.text 5 "Key", .text 13 "productID", .text 10 "Coupon",
      .text 15 "Maturity Date", .text 20 "Aggregate Position", .text 10 "TRSY1", .text 10 "TRSY2",
      .text 10 "TRSY3"]
  | .risk => [.text 5 "Key", .text 20 "FrontEnd Risk", .text 20 "Belly Risk",
      .text 20 "LongEnd Risk", .gap, .text 0 "ProductID    Coupon      Maturity Date  Total Risk"]
  | .executions => [.text 5 "Key", .text 15 "ProductID", .text 10 "Side", .text 10 "OrderID",
      .text 13 "OrderType", .text 10 "Price", .text 18 "VisibleQuantity",
      .text 18 "HiddenQuantity", .text 18 "ParentOrderID", .text 15 "IsChildOrder"]
  | .streaming => [.text 5 "Key", .text 15 "ProductID", .text 15 "Bid Price", .text 15 "Quantity",
      .text 15 "Offer Price", .text 15 "Quantity"]
  | .allinquires => [.text 5 "Key", .text 13 "InquiryID", .text 15 "ProductID", .text 10 "Side",
      .text 15 "Quantity", .text 15 "Price", .text 10 "State"]

def header (report : Report) : List Item := report.headings ++ [.endl]

theorem file_injective : Function.Injective file := by
  intro a b h
  cases a <;> cases b <;> first | rfl | exact absurd h (by decide)

end Report

/-- A service of the given report receives what is published for one datum. -/
def Report.onMessage (report : Report) (publish : List Item) (num : ℤ)
    (out : Output String Item) : ℤ × Output String Item :=
  HistoricalDataService.onMessage report.file report.header publish num out

/-- `BondHistoricalPositionDataService::OnMessage`. -/
def BondHistoricalPositionDataService.onMessageWith (long : ℤ → ℤ) (result : ℤ) (data : Position) :
    ℤ → Output String Item → ℤ × Output String Item :=
  Report.position.onMessage (BondHistoricalPositionDataConnector.publishWith long result data)

/-- `BondHistoricalRiskDataService::OnMessage`. -/
def BondHistoricalRiskDataService.onMessage (data : List PV01) :
    ℤ → Output String Item → ℤ × Output String Item :=
  Report.risk.onMessage (BondHistoricalRiskDataConnector.publish data)

/-- `BondHistoricalExecutionDataService::OnMessage`. -/
def BondHistoricalExecutionDataService.onMessage (data : ExecutionOrder) :
    ℤ → Output String Item → ℤ × Output String Item :=
  Report.executions.onMessage (BondHistoricalExecutionDataConnector.publish data)

/-- `BondHistoricalStreamingDataService::OnMessage`. -/
def BondHistoricalStreamingDataService.onMessage (data : PriceStream) :
    ℤ → Output String Item → ℤ × Output String Item :=
  Report.streaming.onMessage (BondHistoricalStreamingDataConnector.publish data)

/-- `BondHistoricalInquiryDataService::OnMessage`. -/
def BondHistoricalInquiryDataService.onMessage (data : Inquiry) :
    ℤ → Output String Item → ℤ × Output String Item :=
  Report.allinquires.onMessage (BondHistoricalInquiryDataConnector.publish data)

/-! ## 5. The four services on one stream -/

/-- The `num` of every service, the two global streams, and the disk. -/
structure Archive where
  hisPosition : ℤ
  hisRisk : ℤ
  hisExecution : ℤ
  hisStreaming : ℤ
  hisInquiry : ℤ
  f1 : Ofstream String
  f2 : Ofstream String
  disk : String → Option (List Item)

/-- A message for a service that writes through `f1`. -/
inductive F1Call where
  | risk (data : List PV01)
  | execution (data : ExecutionOrder)
  | streaming (data : PriceStream)
  | inquiry (data : Inquiry)
  deriving DecidableEq, Repr

namespace F1Call

def report : F1Call → Report
  | .risk _ => .risk
  | .execution _ => .executions
  | .streaming _ => .streaming
  | .inquiry _ => .allinquires

def publish : F1Call → List Item
  | .risk data => BondHistoricalRiskDataConnector.publish data
  | .execution data => BondHistoricalExecutionDataConnector.publish data
  | .streaming data => BondHistoricalStreamingDataConnector.publish data
  | .inquiry data => BondHistoricalInquiryDataConnector.publish data

/-- What one message should add to its report, under a key. -/
def record (call : F1Call) : ℤ → List Item := HistoricalDataService.record call.publish

end F1Call

namespace Archive

/-- The constructors of the services and of the streams. -/
def fresh (disk : String → Option (List Item)) : Archive :=
  ⟨1, 1, 1, 1, 1, .fresh, .fresh, disk⟩

def positionMessageWith (long : ℤ → ℤ) (result : ℤ) (data : Position) (a : Archive) : Archive :=
  let (num, out) := BondHistoricalPositionDataService.onMessageWith long result data a.hisPosition
    ⟨a.f2, a.disk⟩
  { a with hisPosition := num, f2 := out.stream, disk := out.disk }

/-- The same with the aggregate in whole numbers. -/
def positionMessage : ℤ → Position → Archive → Archive := positionMessageWith id

/-- One message for a service on `f1`. -/
def f1Message (call : F1Call) (a : Archive) : Archive :=
  match call with
  | .risk data =>
      let (num, out) := BondHistoricalRiskDataService.onMessage data a.hisRisk ⟨a.f1, a.disk⟩
      { a with hisRisk := num, f1 := out.stream, disk := out.disk }
  | .execution data =>
      let (num, out) := BondHistoricalExecutionDataService.onMessage data a.hisExecution
        ⟨a.f1, a.disk⟩
      { a with hisExecution := num, f1 := out.stream, disk := out.disk }
  | .streaming data =>
      let (num, out) := BondHistoricalStreamingDataService.onMessage data a.hisStreaming
        ⟨a.f1, a.disk⟩
      { a with hisStreaming := num, f1 := out.stream, disk := out.disk }
  | .inquiry data =>
      let (num, out) := BondHistoricalInquiryDataService.onMessage data a.hisInquiry ⟨a.f1, a.disk⟩
      { a with hisInquiry := num, f1 := out.stream, disk := out.disk }

/-- The counter of a report's service. -/
def num (a : Archive) : Report → ℤ
  | .position => a.hisPosition
  | .risk => a.hisRisk
  | .executions => a.hisExecution
  | .streaming => a.hisStreaming
  | .allinquires => a.hisInquiry

/-- The archive as counters over one stream, `f1`. -/
def onF1 (a : Archive) : Shared Report String Item := ⟨a.num, ⟨a.f1, a.disk⟩⟩

/-- **Each of the four services is a log over the shared stream.** -/
theorem onF1_message (call : F1Call) (a : Archive) :
    (a.f1Message call).onF1 =
      a.onF1.record Report.file Report.header F1Call.report F1Call.record call := by
  have hnum : ∀ (r : Report) (n : ℤ) (b : Archive), b.num r = n →
      (∀ t, t ≠ r → b.num t = a.num t) → b.num = Function.update a.num r n := by
    intro r n b hself hother
    funext t
    by_cases ht : t = r
    · rw [ht, Function.update_self, hself]
    · rw [Function.update_of_ne ht, hother t ht]
  cases call <;>
    · unfold f1Message onF1 Shared.record F1Call.record
      simp only [BondHistoricalRiskDataService.onMessage,
        BondHistoricalExecutionDataService.onMessage,
        BondHistoricalStreamingDataService.onMessage, BondHistoricalInquiryDataService.onMessage,
        Report.onMessage, HistoricalDataService.onMessage_eq]
      refine congrArg₂ Shared.mk (hnum _ _ _ rfl fun t ht => ?_) rfl
      cases t <;> first | rfl | exact absurd rfl ht

/-- What a message for one of the four does to the stream and the disk. -/
theorem f1Message_out (call : F1Call) (a : Archive) :
    (⟨(a.f1Message call).f1, (a.f1Message call).disk⟩ : Output String Item) =
      (persist call.report.file call.report.header call.record (a.num call.report)
        ⟨a.f1, a.disk⟩).2 :=
  congrArg Shared.out (onF1_message call a)

theorem f1Message_num (call : F1Call) (a : Archive) :
    (a.f1Message call).num = Function.update a.num call.report
      (persist call.report.file call.report.header call.record (a.num call.report)
        ⟨a.f1, a.disk⟩).1 :=
  congrArg Shared.num (onF1_message call a)

theorem f1Message_f2 (call : F1Call) (a : Archive) : (a.f1Message call).f2 = a.f2 := by
  cases call <;> rfl

/-- What one position should add to its report, under a key. -/
def positionRecord (result : ℤ) (data : Position) : ℤ → List Item :=
  HistoricalDataService.record (BondHistoricalPositionDataConnector.publish result data)

/-- **The position service is a log over the stream `f2`.** -/
theorem positionMessage_out (result : ℤ) (data : Position) (a : Archive) :
    (⟨(a.positionMessage result data).f2, (a.positionMessage result data).disk⟩ :
        Output String Item) =
      (persist Report.position.file Report.position.header (positionRecord result data)
        (a.num .position) ⟨a.f2, a.disk⟩).2 := by
  rw [positionRecord, ← HistoricalDataService.onMessage_eq]
  rfl

theorem positionMessage_num (result : ℤ) (data : Position) (a : Archive) :
    (a.positionMessage result data).num =
      Function.update a.num .position
        (persist Report.position.file Report.position.header (positionRecord result data)
          (a.num .position) ⟨a.f2, a.disk⟩).1 := by
  rw [positionRecord, ← HistoricalDataService.onMessage_eq]
  funext report
  cases report <;> rfl

/-- The archive after messages for the four services. -/
def runF1 (calls : List F1Call) (a : Archive) : Archive :=
  calls.foldl (fun a call => a.f1Message call) a

theorem onF1_run (calls : List F1Call) (a : Archive) :
    (a.runF1 calls).onF1 =
      calls.foldl (Shared.record Report.file Report.header F1Call.report F1Call.record) a.onF1 := by
  induction calls generalizing a with
  | nil => rfl
  | cons call calls ih =>
      rw [List.foldl_cons, ← onF1_message, ← ih]
      rfl

end Archive

/-- The reports written through `f1`. -/
def f1Reports : List Report := [.risk, .executions, .streaming, .allinquires]

/-- The content a report should have: its header, and the records given to its own service in the
    order given, keyed 1, 2, 3, … -/
def expected (report : Report) (calls : List F1Call) : List Item :=
  report.header ++
    numbered ((calls.filter fun call => call.report = report).map F1Call.record)

/-- Every record is in its own file, and nothing else is. -/
def Routed (calls : List F1Call) (disk : String → Option (List Item)) : Prop :=
  ∀ report ∈ f1Reports, disk report.file = some (expected report calls)

/-- The same for the reports that were given records. -/
def RoutedWhereGiven (calls : List F1Call) (disk : String → Option (List Item)) : Prop :=
  ∀ report ∈ calls.map F1Call.report, disk report.file = some (expected report calls)

/-- The position report is none of theirs. -/
theorem f1Call_file_ne (call : F1Call) : call.report.file ≠ "position.txt" := by
  cases call <;> simp [F1Call.report, Report.file]

theorem f1Call_record_ne_nil (call : F1Call) (k : ℤ) : call.record k ≠ [] := List.cons_ne_nil _ _

theorem report_mem_f1Reports {calls : List F1Call} {report : Report}
    (h : report ∈ calls.map F1Call.report) : report ∈ f1Reports := by
  obtain ⟨call, -, rfl⟩ := List.mem_map.mp h
  cases call <;> simp [F1Call.report, f1Reports]

/-- The shared-stream invariant of an archive after messages for the four services. -/
theorem sharedInv_runF1 (calls : List F1Call) (disk₀ : String → Option (List Item))
    (hlen : calls.length < 2147483648) :
    SharedInv Report.file Report.header F1Call.report F1Call.record disk₀ calls
      ((Archive.fresh disk₀).runF1 calls).onF1 := by
  have hstart : (Archive.fresh disk₀).onF1 = Shared.start disk₀ := by
    refine congrArg₂ Shared.mk (funext fun t => ?_) rfl
    cases t <;> rfl
  rw [Archive.onF1_run, hstart]
  exact sharedInv_run Report.file_injective f1Call_record_ne_nil hlen

/-- **Routing over the shared stream**: the reports that were given records are right exactly when
    the messages of each service come in one block, and all four are exactly when, besides, the
    file of every service without a message already held its header alone. -/
theorem routed_iff (calls : List F1Call) (disk₀ : String → Option (List Item))
    (hlen : calls.length < 2147483648) :
    (RoutedWhereGiven calls ((Archive.fresh disk₀).runF1 calls).disk ↔
      Grouped (calls.map F1Call.report)) ∧
    (Routed calls ((Archive.fresh disk₀).runF1 calls).disk ↔
      Grouped (calls.map F1Call.report) ∧
        ∀ report ∈ f1Reports, report ∉ calls.map F1Call.report →
          disk₀ report.file = some report.header) :=
  ⟨(sharedInv_runF1 calls disk₀ hlen).grouped_iff,
    (sharedInv_runF1 calls disk₀ hlen).all_iff Report.file_injective
      fun _ h => report_mem_f1Reports h⟩

/-- One message for each service, in the order of `main`, then one more for the risk service. -/
def riskAgain : List F1Call :=
  [.execution ⟨.ofCusip "912828M72", .bid, "T1", .market, 99, 10000000, 0, "NULL", false⟩,
    .risk [],
    .streaming (BondAlgoStreamingService.streamFor ⟨.ofCusip "912828M72", 99, 0⟩),
    .inquiry ⟨"I1", .ofCusip "912828M72", .buy, 10000000, 100, .done⟩,
    .risk []]

/-- The theorem at the first four of these messages. -/
theorem routed_iff_inOrder :
    (RoutedWhereGiven (riskAgain.take 4)
        ((Archive.fresh fun _ => none).runF1 (riskAgain.take 4)).disk ↔
      Grouped ((riskAgain.take 4).map F1Call.report)) ∧
    (Routed (riskAgain.take 4) ((Archive.fresh fun _ => none).runF1 (riskAgain.take 4)).disk ↔
      Grouped ((riskAgain.take 4).map F1Call.report) ∧
        ∀ report ∈ f1Reports, report ∉ (riskAgain.take 4).map F1Call.report →
          (fun _ => none : String → Option (List Item)) report.file = some report.header) :=
  routed_iff (riskAgain.take 4) (fun _ => none) (by decide)

/-- The risk service's second record stands at the end of the inquiry report. -/
theorem riskAgain_misrouted :
    ¬ Routed riskAgain ((Archive.fresh fun _ => none).runF1 riskAgain).disk ∧
    ((Archive.fresh fun _ => none).runF1 riskAgain).disk "risk.txt" =
      some (Report.risk.header ++ F1Call.record (.risk []) 1) ∧
    ((Archive.fresh fun _ => none).runF1 riskAgain).disk "allinquires.txt" =
      some (expected .allinquires riskAgain ++ F1Call.record (.risk []) 2) := by
  have hrisk : ((Archive.fresh fun _ => none).runF1 riskAgain).disk "risk.txt" =
      some (Report.risk.header ++ F1Call.record (.risk []) 1) := by decide +kernel
  refine ⟨fun h => ?_, hrisk, by decide +kernel⟩
  have hrouted := h .risk (by decide)
  rw [show Report.risk.file = "risk.txt" from rfl, hrisk] at hrouted
  exact absurd (congrArg List.length (Option.some.inj hrouted)) (by decide +kernel)

/-! ## 6. Rows -/

/-- What is published ends its line, and no other. -/
structure SingleLine (publish : List Item) : Prop where
  ends : publish.dropLast ++ [.endl] = publish
  only : Item.endl ∉ publish.dropLast

/-- The row of a record: its key, and the fields that are published. -/
def rowOf (publish : List Item) (key : ℤ) : List Item := .key key :: publish.dropLast

theorem singleLine_position (result : ℤ) (data : Position) :
    SingleLine (BondHistoricalPositionDataConnector.publish result data) :=
  ⟨rfl, by simp [BondHistoricalPositionDataConnector.publish,
      BondHistoricalPositionDataConnector.publishWith, Item.text, Item.long, Item.gap]⟩

theorem singleLine_execution (data : ExecutionOrder) :
    SingleLine (BondHistoricalExecutionDataConnector.publish data) :=
  ⟨rfl, by simp [BondHistoricalExecutionDataConnector.publish, Item.text, Item.long]⟩

theorem singleLine_streaming (data : PriceStream) :
    SingleLine (BondHistoricalStreamingDataConnector.publish data) :=
  ⟨rfl, by simp [BondHistoricalStreamingDataConnector.publish, Item.text, Item.long]⟩

theorem singleLine_inquiry (data : Inquiry) :
    SingleLine (BondHistoricalInquiryDataConnector.publish data) :=
  ⟨rfl, by simp [BondHistoricalInquiryDataConnector.publish, Item.text, Item.long]⟩

theorem record_eq_row {publish : List Item} (h : SingleLine publish) (key : ℤ) :
    HistoricalDataService.record publish key = rowOf publish key ++ [.endl] := by
  show .key key :: publish = .key key :: (publish.dropLast ++ [.endl])
  rw [h.ends]

theorem endl_notMem_rowOf {publish : List Item} (h : SingleLine publish) (key : ℤ) :
    Item.endl ∉ rowOf publish key := by
  rw [rowOf, List.mem_cons, not_or]
  exact ⟨fun e => (by cases e), h.only⟩

theorem endl_notMem_headings (report : Report) : Item.endl ∉ report.headings := by
  cases report <;> simp [Report.headings, Item.text, Item.gap]

/-- **A report of single-line records** is its heading line and one row for each record, under the
    keys 1, 2, 3, … -/
theorem report_eq_unlines (report : Report) {published : List (List Item)}
    (h : ∀ publish ∈ published, SingleLine publish) :
    report.header ++ numbered (published.map HistoricalDataService.record) =
      unlines .endl
        (report.headings :: (published.zipIdx 1).map fun entry => rowOf entry.1 entry.2) := by
  unfold numbered unlines Report.header
  rw [List.zipIdx_map, List.flatMap_map, List.flatMap_cons, List.flatMap_map]
  refine congrArg _ (List.flatMap_congr fun entry he => ?_)
  exact record_eq_row (h entry.1 (List.fst_mem_of_mem_zipIdx he)) _

/-- So it is read back. -/
theorem rowsOf_report (report : Report) {published : List (List Item)}
    (h : ∀ publish ∈ published, SingleLine publish) :
    rowsOf (report.header ++ numbered (published.map HistoricalDataService.record)) =
      report.headings :: (published.zipIdx 1).map fun entry => rowOf entry.1 entry.2 := by
  rw [report_eq_unlines report h, rowsOf, getlines_unlines]
  intro row hrow
  rcases List.mem_cons.mp hrow with rfl | hrow
  · exact endl_notMem_headings report
  · obtain ⟨entry, he, rfl⟩ := List.mem_map.mp hrow
    exact endl_notMem_rowOf (h entry.1 (List.fst_mem_of_mem_zipIdx he)) _

/-- **The position report while it is written**: the counter, `f1` off its file, and, unless the
    next record is the first, `f2` on it behind finished lines. -/
structure PositionLog (n : Nat) (a : Archive) : Prop where
  counter : a.hisPosition = int32 (n + 1)
  apart : a.f1.target ≠ some "position.txt"
  lines : a.hisPosition = 1 ∨ (a.f2 = ⟨some "position.txt", false⟩ ∧
    ∃ lines, (∀ line ∈ lines, Item.endl ∉ line) ∧
      a.disk "position.txt" = some (unlines .endl lines))

theorem positionLog_fresh (disk : String → Option (List Item)) :
    PositionLog 0 (Archive.fresh disk) :=
  ⟨rfl, fun e => (by cases e), Or.inl rfl⟩

/-- The rows the next record is put behind: the first one starts the report anew. -/
def Archive.positionRows (a : Archive) : List (List Item) :=
  if a.hisPosition = 1 then [Report.position.headings]
  else ((a.disk "position.txt").map rowsOf).getD []

/-- The services on `f1` leave the position report alone. -/
theorem positionLog_f1Message {n : Nat} {a : Archive} (h : PositionLog n a) (call : F1Call) :
    PositionLog n (a.f1Message call) ∧ (a.f1Message call).positionRows = a.positionRows := by
  have hout := Archive.f1Message_out call a
  obtain ⟨htarget, hdisk⟩ := persist_frame ⟨a.f1, a.disk⟩ (f1Call_file_ne call) h.apart
    call.report.header call.record (a.num call.report)
  rw [← hout] at htarget hdisk
  have hnum : (a.f1Message call).hisPosition = a.hisPosition := by cases call <;> rfl
  have hsame : (a.f1Message call).disk "position.txt" = a.disk "position.txt" := hdisk
  refine ⟨⟨hnum.trans h.counter, htarget, ?_⟩, ?_⟩
  · rw [hnum, Archive.f1Message_f2, hsame]
    exact h.lines
  · rw [Archive.positionRows, hnum, hsame]
    rfl

/-- What a position adds to the report: the rows so far are finished lines, and its own row follows
    them, whether the file is started or gone on with. -/
theorem PositionLog.lines_positionMessage {n : Nat} {a : Archive} (h : PositionLog n a)
    (result : ℤ) (data : Position) :
    (a.positionMessage result data).f2 = ⟨some "position.txt", false⟩ ∧
      (∀ row ∈ a.positionRows, Item.endl ∉ row) ∧
      (a.positionMessage result data).disk "position.txt" = some (unlines .endl (a.positionRows ++
        [rowOf (BondHistoricalPositionDataConnector.publish result data) a.hisPosition])) := by
  have hsingle := singleLine_position result data
  have hout : _ = (persist "position.txt" Report.position.header
    (Archive.positionRecord result data) a.hisPosition ⟨a.f2, a.disk⟩).2 :=
    Archive.positionMessage_out result data a
  by_cases h1 : a.hisPosition = 1
  · have hrows : a.positionRows = [Report.position.headings] := if_pos h1
    rw [h1, persist_first] at hout
    injection hout with hstream hdisk
    refine ⟨hstream, fun row hrow => ?_, ?_⟩
    · rw [hrows, List.mem_singleton] at hrow
      rw [hrow]
      exact endl_notMem_headings _
    · rw [hdisk, Function.update_self, Archive.positionRecord, record_eq_row hsingle, h1, hrows]
      rfl
  · obtain ⟨hf2, lines, hfree, hcontent⟩ := h.lines.resolve_left h1
    have hrows : a.positionRows = lines := by
      rw [Archive.positionRows, if_neg h1, hcontent]
      exact getlines_unlines hfree
    rw [hf2, persist_later _ _ _ h1] at hout
    injection hout with hstream hdisk
    refine ⟨hstream, hrows ▸ hfree, ?_⟩
    rw [hdisk, Function.update_self, hcontent, Archive.positionRecord, record_eq_row hsingle,
      Option.map_some, hrows]
    simp [unlines]

theorem PositionLog.counter_positionMessage {n : Nat} {a : Archive} (h : PositionLog n a)
    (result : ℤ) (data : Position) :
    (a.positionMessage result data).hisPosition = int32 ((n + 1 : Nat) + 1) := by
  have hnum : (a.positionMessage result data).hisPosition = int32 (a.hisPosition + 1) := by
    have hall := congrFun (Archive.positionMessage_num result data a) .position
    rw [Function.update_self] at hall
    exact hall
  rw [hnum, h.counter, int32_add]
  rfl

/-- **One position is one row at the end of the report**, under the counter as its key. -/
theorem positionLog_positionMessage {n : Nat} {a : Archive} (h : PositionLog n a) (result : ℤ)
    (data : Position) :
    PositionLog (n + 1) (a.positionMessage result data) ∧
      ∃ content, (a.positionMessage result data).disk "position.txt" = some content ∧
        rowsOf content = a.positionRows ++
          [rowOf (BondHistoricalPositionDataConnector.publish result data) (int32 (n + 1))] := by
  obtain ⟨hf2, hfree, hdisk⟩ := h.lines_positionMessage result data
  have hall : ∀ row ∈ a.positionRows ++
      [rowOf (BondHistoricalPositionDataConnector.publish result data) a.hisPosition],
      Item.endl ∉ row := by
    intro row hrow
    rcases List.mem_append.mp hrow with hrow | hrow
    · exact hfree row hrow
    · rw [List.mem_singleton.mp hrow]
      exact endl_notMem_rowOf (singleLine_position result data) _
  have hlog : PositionLog (n + 1) (a.positionMessage result data) :=
    ⟨h.counter_positionMessage result data, h.apart, Or.inr ⟨hf2, _, hall, hdisk⟩⟩
  rw [← h.counter]
  exact ⟨hlog, _, hdisk, getlines_unlines hall⟩

/-! ## 7. The bucket figures of the risk report -/

/-- The buckets the report has a figure for. -/
inductive Bucket where
  | frontEnd | belly | longEnd
  deriving DecidableEq, Repr

namespace Bucket

def name : Bucket → String
  | .frontEnd => "FrontEnd"
  | .belly => "Belly"
  | .longEnd => "LongEnd"

/-- The figure of a bucket among the three. -/
def figure {α : Type} : Bucket → α × α × α → α
  | .frontEnd, risks => risks.1
  | .belly, risks => risks.2.1
  | .longEnd, risks => risks.2.2

end Bucket

/-- The figures in exact rationals. -/
theorem figure_exact (bucket : Bucket) (data : List PV01) :
    bucket.figure (BondHistoricalRiskDataConnector.bucketRisks data) =
      (bucket.figure (BondHistoricalRiskDataConnector.bucketFormulas data)).exact := by
  cases bucket <;> rfl

/-- One entry adds to the figure of its own bucket. -/
theorem figure_addRisk (bucket : Bucket) (risks : Formula × Formula × Formula) (entry : PV01) :
    (bucket.figure (BondHistoricalRiskDataConnector.addRisk risks entry)).exact =
      (bucket.figure risks).exact +
        if bondExpiry entry.cusip = bucket.name then (entry.quantity : ℚ) * entry.pv01 else 0 := by
  obtain ⟨front, belly, long⟩ := risks
  unfold BondHistoricalRiskDataConnector.addRisk PV01.cusip
  by_cases hf : bondExpiry entry.product.productId = "FrontEnd"
  · cases bucket <;> simp [hf, Bucket.name, Bucket.figure, Formula.exact]
  · by_cases hb : bondExpiry entry.product.productId = "Belly"
    · cases bucket <;> simp [hb, Bucket.name, Bucket.figure, Formula.exact]
    · by_cases hl : bondExpiry entry.product.productId = "LongEnd"
      · cases bucket <;> simp [hl, Bucket.name, Bucket.figure, Formula.exact]
      · cases bucket <;> simp [hf, hb, hl, Bucket.name, Bucket.figure]

/-- **A figure of the report is the sum over the entries of its bucket.** -/
theorem figure_bucketRisks (bucket : Bucket) (data : List PV01) :
    bucket.figure (BondHistoricalRiskDataConnector.bucketRisks data) =
      ((data.filter fun entry => bondExpiry entry.cusip = bucket.name).map
        fun entry => (entry.quantity : ℚ) * entry.pv01).sum := by
  suffices h : ∀ risks,
      (bucket.figure (data.foldl BondHistoricalRiskDataConnector.addRisk risks)).exact =
      (bucket.figure risks).exact +
        ((data.filter fun entry => bondExpiry entry.cusip = bucket.name).map
          fun entry => (entry.quantity : ℚ) * entry.pv01).sum by
    rw [figure_exact, BondHistoricalRiskDataConnector.bucketFormulas, h]
    cases bucket <;> exact zero_add _
  induction data with
  | nil => intro risks; simp
  | cons entry data ih =>
      intro risks
      rw [List.foldl_cons, ih, figure_addRisk, List.filter_cons]
      by_cases hb : bondExpiry entry.cusip = bucket.name <;> simp [hb, add_assoc]

/-- The risk of one entry, as its line prints it. -/
def PV01.risk (entry : PV01) : ℚ := entry.quantity * entry.pv01

/-- The entries a bucket counts. -/
def Bucket.counted (bucket : Bucket) (data : List PV01) : List PV01 :=
  data.filter fun entry => bondExpiry entry.cusip = bucket.name

theorem Bucket.name_injective : Function.Injective Bucket.name := by
  intro a b h
  cases a <;> cases b <;> first | rfl | exact absurd h (by decide)

/-- **The two tables know the same CUSIPs**: what has a PV01 has a bucket. -/
theorem exists_bucket {cusip : String} (h : bondPV01 cusip ≠ 0) :
    ∃ bucket : Bucket, bondExpiry cusip = bucket.name := by
  by_cases hf : cusip = "912828M72" ∨ cusip = "912828N22" ∨ cusip = "912828M98"
  · exact ⟨.frontEnd, if_pos hf⟩
  · by_cases hb : cusip = "912828M80" ∨ cusip = "912828M56"
    · exact ⟨.belly, (if_neg hf).trans (if_pos hb)⟩
    · by_cases hl : cusip = "912810RP5"
      · exact ⟨.longEnd, (if_neg hf).trans ((if_neg hb).trans (if_pos hl))⟩
      · rw [not_or, not_or] at hf
        rw [not_or] at hb
        refine absurd ?_ h
        simp [bondPV01, hf, hb, hl]

/-- An entry at the table's PV01 counts in the three buckets together with all its risk. -/
theorem sum_buckets {entry : PV01} (h : entry.pv01 = bondPV01 entry.cusip) :
    (if bondExpiry entry.cusip = Bucket.frontEnd.name then entry.risk else 0) +
      (if bondExpiry entry.cusip = Bucket.belly.name then entry.risk else 0) +
      (if bondExpiry entry.cusip = Bucket.longEnd.name then entry.risk else 0) = entry.risk := by
  by_cases hpv : bondPV01 entry.cusip = 0
  · have hzero : entry.risk = 0 := by rw [PV01.risk, h, hpv, mul_zero]
    simp [hzero]
  · obtain ⟨bucket, hbucket⟩ := exists_bucket hpv
    rw [hbucket]
    cases bucket <;> simp [Bucket.name]

/-- **The three figures add up to the risk of all entries.** -/
theorem sum_bucketRisks {data : List PV01} (h : ∀ entry ∈ data, entry.pv01 = bondPV01 entry.cusip) :
    (BondHistoricalRiskDataConnector.bucketRisks data).1 +
        (BondHistoricalRiskDataConnector.bucketRisks data).2.1 +
        (BondHistoricalRiskDataConnector.bucketRisks data).2.2 = (data.map PV01.risk).sum := by
  show Bucket.frontEnd.figure (BondHistoricalRiskDataConnector.bucketRisks data) +
    Bucket.belly.figure (BondHistoricalRiskDataConnector.bucketRisks data) +
    Bucket.longEnd.figure (BondHistoricalRiskDataConnector.bucketRisks data) = _
  induction data using List.reverseRecOn with
  | nil => simp [Bucket.figure, BondHistoricalRiskDataConnector.bucketRisks,
      BondHistoricalRiskDataConnector.bucketFormulas, Formula.exact]
  | append_singleton data entry ih =>
      have hone : ∀ bucket : Bucket,
          bucket.figure (BondHistoricalRiskDataConnector.bucketRisks (data ++ [entry])) =
            bucket.figure (BondHistoricalRiskDataConnector.bucketRisks data) +
              if bondExpiry entry.cusip = bucket.name then entry.risk else 0 := by
        intro bucket
        rw [figure_exact, figure_exact, BondHistoricalRiskDataConnector.bucketFormulas,
          List.foldl_append, List.foldl_cons, List.foldl_nil, figure_addRisk]
        rfl
      rw [hone, hone, hone, List.map_append, List.sum_append, List.map_singleton, List.sum_singleton,
        ← ih fun e he => h e (List.mem_append_left _ he)]
      conv_rhs => rw [← sum_buckets (h entry (by simp))]
      ring

/-- The numbers among what is published, in exact rationals. -/
def doublesOf (items : List Item) : List ℚ :=
  items.filterMap fun
    | .field _ (.double f) => some f.exact
    | _ => none

/-- The numbers in the risk report: the three figures, and below them the risk of each entry. -/
theorem doublesOf_publish (data : List PV01) :
    doublesOf (BondHistoricalRiskDataConnector.publish data) =
      [(BondHistoricalRiskDataConnector.bucketRisks data).1,
        (BondHistoricalRiskDataConnector.bucketRisks data).2.1,
        (BondHistoricalRiskDataConnector.bucketRisks data).2.2] ++ data.map PV01.risk := by
  have hline : ∀ entry i, doublesOf (BondHistoricalRiskDataConnector.entryItems entry i) =
      [PV01.risk entry] := by
    intro entry i
    unfold BondHistoricalRiskDataConnector.entryItems
    split_ifs <;> rfl
  unfold BondHistoricalRiskDataConnector.publish
  rw [doublesOf, List.filterMap_append, List.filterMap_flatMap]
  refine congrArg₂ (· ++ ·) rfl ?_
  show (data.zipIdx.flatMap fun entry =>
    doublesOf (BondHistoricalRiskDataConnector.entryItems entry.1 entry.2)) = _
  simp only [hline]
  rw [← List.map_eq_flatMap]
  calc data.zipIdx.map (fun entry => entry.1.risk)
      = (data.zipIdx.map Prod.fst).map PV01.risk := by
          rw [List.map_map]; rfl
    _ = data.map PV01.risk := by rw [List.zipIdx_map_fst]

/-- **No risk is lost between the entries and the buckets**: the figures are the sums of what they
    count, they add up to the risk of all entries, which is what is printed below them, and an entry
    with a PV01 counts in one of them. -/
structure LosesNoRisk (data : List PV01) : Prop where
  figures : ∀ bucket : Bucket, bucket.figure (BondHistoricalRiskDataConnector.bucketRisks data) =
    ((bucket.counted data).map PV01.risk).sum
  total : (BondHistoricalRiskDataConnector.bucketRisks data).1 +
    (BondHistoricalRiskDataConnector.bucketRisks data).2.1 +
    (BondHistoricalRiskDataConnector.bucketRisks data).2.2 = (data.map PV01.risk).sum
  printed : doublesOf (BondHistoricalRiskDataConnector.publish data) =
    [(BondHistoricalRiskDataConnector.bucketRisks data).1,
      (BondHistoricalRiskDataConnector.bucketRisks data).2.1,
      (BondHistoricalRiskDataConnector.bucketRisks data).2.2] ++ data.map PV01.risk
  once : ∀ entry ∈ data, entry.pv01 ≠ 0 → ∃! bucket : Bucket, entry ∈ bucket.counted data

/-- **Bucketing loses no risk**, whatever `AddPosition` calls made the entries. -/
theorem losesNoRisk_run {ι κ : Type} (ls : List ι) (hs : List κ) (calls : List (Position × ℤ)) :
    LosesNoRisk (BondRiskService.run calls ⟨ls, hs, []⟩).riskPosition := by
  have hstore := BondRiskService.riskStore_run calls ls hs
  refine { figures := fun bucket => figure_bucketRisks bucket _,
           total := sum_bucketRisks hstore.fromTable, printed := doublesOf_publish _, once := ?_ }
  intro entry hentry hpv
  rw [hstore.fromTable entry hentry] at hpv
  obtain ⟨bucket, hbucket⟩ := exists_bucket hpv
  refine ⟨bucket, List.mem_filter.mpr ⟨hentry, decide_eq_true hbucket⟩, fun other hother => ?_⟩
  have hname := of_decide_eq_true (List.mem_filter.mp hother).2
  exact Bucket.name_injective (hname.symm.trans hbucket)

/-- A sector that lists each CUSIP of a bucket exactly once. -/
structure ListsBucket (sector : BucketedSector) (name : String) : Prop where
  once : (sector.products.map Bond.productId).Nodup
  all : ∀ cusip, cusip ∈ sector.products.map Bond.productId ↔ bondExpiry cusip = name

/-- **The two bucket risks agree**: after any `AddPosition` calls, the risk of a sector that lists a
    bucket is the figure that `Publish` accumulates for it from the vector the historical
    listeners got with the last call. -/
theorem bucketedRisk_agrees {ι κ : Type} (ls : List ι) (hs : List κ)
    (calls : List (Position × ℤ)) (last : Position × ℤ) (bucket : Bucket) (sector : BucketedSector)
    (hsector : ListsBucket sector bucket.name) :
    ∃ data,
      ((BondRiskService.run calls ⟨ls, hs, []⟩).addPosition last.2 last.1).2 =
        notify hs data ∧
      (BondRiskService.run (calls ++ [last]) ⟨ls, hs, []⟩).getBucketedRisk sector =
        bucket.figure (BondHistoricalRiskDataConnector.bucketRisks data) := by
  refine ⟨(BondRiskService.run (calls ++ [last]) ⟨ls, hs, []⟩).riskPosition, ?_, ?_⟩
  · rw [BondRiskService.run_concat]
    exact congrArg (notify · _) (BondRiskService.historicalListeners_runWith id calls ls hs)
  · rw [BondRiskService.getBucketedRisk_eq (BondRiskService.riskStore_run _ ls hs) hsector.once,
      figure_bucketRisks]
    simp only [hsector.all]

/-- The sector of a bucket: the CUSIPs `BondExpiry` knows for it. -/
def Bucket.sector (bucket : Bucket) : BucketedSector :=
  ⟨(match bucket with
    | .frontEnd => ["912828M72", "912828N22", "912828M98"]
    | .belly => ["912828M80", "912828M56"]
    | .longEnd => ["912810RP5"]).map Bond.ofCusip, bucket.name⟩

theorem Bucket.sector_lists (bucket : Bucket) : ListsBucket bucket.sector bucket.name := by
  have hids : ∀ cusips : List String,
      (cusips.map Bond.ofCusip).map Bond.productId = cusips := fun cusips => by
    simp [Function.comp_def]
  refine ⟨?_, fun cusip => ?_⟩
  · unfold sector
    rw [hids]
    cases bucket <;> decide
  · unfold sector
    rw [hids]
    by_cases hf : cusip = "912828M72" ∨ cusip = "912828N22" ∨ cusip = "912828M98"
    · rcases hf with rfl | rfl | rfl <;> cases bucket <;> decide
    · by_cases hb : cusip = "912828M80" ∨ cusip = "912828M56"
      · rcases hb with rfl | rfl <;> cases bucket <;> decide
      · by_cases hl : cusip = "912810RP5"
        · subst hl
          cases bucket <;> decide
        · cases bucket <;> simp [bondExpiry, name, hf, hb, hl]

/-- The theorem at one purchase of a two-year note, for the front end. -/
theorem bucketedRisk_agrees_frontEnd :
    ∃ data,
      ((BondRiskService.run [] ⟨([] : List Empty), ["risk log"], []⟩).addPosition 0
        (Position.ofTrade ⟨.ofCusip "912828M72", "T1", "TRSY1", 1000, .buy⟩)).2 =
        notify ["risk log"] data ∧
      (BondRiskService.run ([] ++
          [(Position.ofTrade ⟨.ofCusip "912828M72", "T1", "TRSY1", 1000, .buy⟩, 0)])
          ⟨([] : List Empty), ["risk log"], []⟩).getBucketedRisk Bucket.frontEnd.sector =
        Bucket.frontEnd.figure (BondHistoricalRiskDataConnector.bucketRisks data) :=
  bucketedRisk_agrees [] ["risk log"] []
    (Position.ofTrade ⟨.ofCusip "912828M72", "T1", "TRSY1", 1000, .buy⟩, 0) .frontEnd
    Bucket.frontEnd.sector Bucket.frontEnd.sector_lists

end BondTrading
