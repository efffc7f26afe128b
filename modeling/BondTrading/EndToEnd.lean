/-
  File:      BondTrading/EndToEnd.lean
  Subject:   A RUN OF MAIN: every data line of the four input files has its record in the reports.

  * `Filed` -- the five reports while `main` runs: what has been published for each so far is what
    its file holds; `filed_f1Message`, `filed_positionMessage` -- one message keeps it;
  * `reportPhase` -- an input file whose lines each make one record of one report on `f1`;
    `tradesPhase` -- the trades, which fill the position and the risk report in turn;
  * `main_filed` -- the four phases of `main` one after the other;
  * `main_reports` -- it ends, one row (or risk block) per line, numbered, in the order of the
    input, with the line's CUSIP.
-/
import BondTrading.Accounts

namespace BondTrading

open Cxx

/-! ## 1. What the reports hold -/

/-- **The reports so far**: every counter is past the records published, and a report that has any
    holds its header and them. -/
structure Filed (published : Report → List (List Item)) (a : Archive) : Prop where
  num : ∀ report, a.num report = int32 ((published report).length + 1)
  disk : ∀ report, published report ≠ [] → a.disk report.file = some
    (report.header ++ numbered ((published report).map HistoricalDataService.record))
  f2 : published .position ≠ [] → a.f2 = ⟨some "position.txt", false⟩

/-- `f1` is on the report, if that has been started. -/
def OnReport (report : Report) (published : Report → List (List Item)) (a : Archive) : Prop :=
  published report ≠ [] → a.f1 = ⟨some report.file, false⟩

theorem filed_fresh (disk : String → Option (List Item)) :
    Filed (fun _ => []) (Archive.fresh disk) :=
  ⟨fun report => by cases report <;> rfl, fun _ h => absurd rfl h, fun h => absurd rfl h⟩

/-- One more thing published for a report. -/
def addTo (published : Report → List (List Item)) (report : Report) (publish : List Item) :
    Report → List (List Item) :=
  Function.update published report (published report ++ [publish])

section Filed

variable {published : Report → List (List Item)} {a : Archive} (h : Filed published a)

include h

/-- The log of one report, on the stream that is its own. -/
theorem Filed.logged (report : Report) {stream : Ofstream String}
    (hstream : published report ≠ [] → stream = ⟨some report.file, false⟩) :
    Logged report.file report.header ((published report).map HistoricalDataService.record)
      (a.num report) ⟨stream, a.disk⟩ where
  counter := by rw [h.num, List.length_map]
  stream hne := hstream (mt List.map_eq_nil_iff.mpr hne)
  disk hne := h.disk report (mt List.map_eq_nil_iff.mpr hne)

/-- What a new record leaves of a report's file, and of the others'. -/
theorem Filed.disk_addTo {report : Report} {publish : List Item}
    {disk : String → Option (List Item)}
    (hself : disk report.file = some (report.header ++
      numbered ((published report).map HistoricalDataService.record ++
        [HistoricalDataService.record publish])))
    (hother : ∀ file, file ≠ report.file → disk file = a.disk file) (r : Report)
    (hr : addTo published report publish r ≠ []) :
    disk r.file = some (r.header ++
      numbered ((addTo published report publish r).map HistoricalDataService.record)) := by
  by_cases hrr : r = report
  · subst hrr
    rw [hself, addTo, Function.update_self, List.map_append]
    rfl
  · rw [addTo, Function.update_of_ne hrr] at hr ⊢
    rw [hother _ fun e => hrr (Report.file_injective e)]
    exact h.disk r hr

theorem Filed.num_addTo {report : Report} {publish : List Item} {num : Report → ℤ} {n : ℤ}
    (hn : n = int32 ((published report).length + 1 + 1))
    (hnum : num = Function.update a.num report n) (r : Report) :
    num r = int32 ((addTo published report publish r).length + 1) := by
  rw [hnum, addTo]
  by_cases hrr : r = report
  · subst hrr
    rw [Function.update_self, Function.update_self, hn, List.length_append]
    rfl
  · rw [Function.update_of_ne hrr, Function.update_of_ne hrr, h.num]

/-- **One message on `f1`** is one record of its report. -/
theorem filed_f1Message (call : F1Call) (hf1 : OnReport call.report published a)
    (hlen : (published call.report).length + 1 < 2147483648) :
    Filed (addTo published call.report call.publish) (a.f1Message call) ∧
      (a.f1Message call).f1 = ⟨some call.report.file, false⟩ := by
  have hshort : ((published call.report).map HistoricalDataService.record).length + 1 <
      2147483648 := by
    rw [List.length_map]
    exact hlen
  obtain ⟨hlog, hother⟩ := logged_persist (h.logged call.report hf1) hshort call.record
  rw [← Archive.f1Message_out] at hlog hother
  have hne : (published call.report).map HistoricalDataService.record ++ [call.record] ≠ [] := by
    simp
  have hposition : call.report ≠ .position := by cases call <;> simp [F1Call.report]
  refine ⟨⟨fun r => ?_, fun r hr => ?_, fun hp => ?_⟩, hlog.stream hne⟩
  · refine h.num_addTo ?_ (Archive.f1Message_num call a) r
    rw [hlog.counter]
    simp
  · exact h.disk_addTo (hlog.disk hne) hother r hr
  · rw [addTo, Function.update_of_ne hposition.symm] at hp
    rw [Archive.f1Message_f2]
    exact h.f2 hp

/-- **One message for the position service** is one record of the position report; `f1` stays where
    it is. -/
theorem filed_positionMessage (result : ℤ) (data : Position)
    (hlen : (published .position).length + 1 < 2147483648) :
    Filed (addTo published .position
        (BondHistoricalPositionDataConnector.publish result data)) (a.positionMessage result data) ∧
      (a.positionMessage result data).f1 = a.f1 := by
  have hshort : ((published .position).map HistoricalDataService.record).length + 1 <
      2147483648 := by
    rw [List.length_map]
    exact hlen
  obtain ⟨hlog, hother⟩ := logged_persist (h.logged .position h.f2) hshort
    (Archive.positionRecord result data)
  rw [← Archive.positionMessage_out] at hlog hother
  have hne : (published .position).map HistoricalDataService.record ++
      [Archive.positionRecord result data] ≠ [] := by simp
  refine ⟨⟨fun r => ?_, fun r hr => ?_, fun _ => hlog.stream hne⟩, rfl⟩
  · refine h.num_addTo ?_ (Archive.positionMessage_num result data a) r
    rw [hlog.counter]
    simp
  · exact h.disk_addTo (hlog.disk hne) hother r hr

end Filed

/-! ## 2. The phases -/

namespace Desk

/-- What holds while an input file fills one report on `f1`: `J`, and for every datum so far one
    message about its subject, published for that report. -/
def ReportInv {δ X : Type} (call : X → F1Call) (report : Report) (about : X → String)
    (subject : δ → String) (J : List δ → Desk → Prop) (published : Report → List (List Item))
    (pre : List δ) (s : Desk) : Prop :=
  J pre s ∧ ∃ xs : List X, xs.map about = pre.map subject ∧
    Filed (Function.update published report (xs.map fun x => (call x).publish)) s.archive ∧
    OnReport report (Function.update published report (xs.map fun x => (call x).publish)) s.archive

section ReportPhase

variable {δ X : Type} {call : X → F1Call} {report : Report}
  (hcall : ∀ x, (call x).report = report) {about : X → String} {subject : δ → String}
  {J : List δ → Desk → Prop} {published : Report → List (List Item)}

include hcall

/-- One message more. -/
theorem reportInv_step {pre : List δ} {d : δ} {x : X} {s s' : Desk}
    (h : ReportInv call report about subject J published pre s)
    (hlen : pre.length + 1 < 2147483648) (hJ : J (pre ++ [d]) s') (hx : about x = subject d)
    (harchive : s'.archive = s.archive.f1Message (call x)) :
    ReportInv call report about subject J published (pre ++ [d]) s' := by
  obtain ⟨-, xs, hxs, hf, hon⟩ := h
  have hlength : xs.length = pre.length := by
    have hl := congrArg List.length hxs
    rwa [List.length_map, List.length_map] at hl
  have hshort : (Function.update published report (xs.map fun x => (call x).publish)
      (call x).report).length + 1 < 2147483648 := by
    rw [hcall, Function.update_self, List.length_map, hlength]
    exact hlen
  have hon' : OnReport (call x).report
      (Function.update published report (xs.map fun x => (call x).publish)) s.archive := by
    rw [hcall]
    exact hon
  obtain ⟨hf', hf1⟩ := filed_f1Message hf (call x) hon' hshort
  have hadd : addTo (Function.update published report (xs.map fun x => (call x).publish))
      (call x).report (call x).publish =
        Function.update published report ((xs ++ [x]).map fun x => (call x).publish) := by
    rw [addTo, hcall, Function.update_idem, Function.update_self, List.map_append]
    rfl
  rw [hadd, ← harchive] at hf'
  rw [hcall, ← harchive] at hf1
  have habout : (xs ++ [x]).map about = (pre ++ [d]).map subject := by
    rw [List.map_append, List.map_append, hxs, List.map_singleton, List.map_singleton, hx]
  exact ⟨hJ, xs ++ [x], habout, hf', fun _ => hf1⟩

/-- **An input file that fills one report on `f1`**: every datum is one message for that report,
    about the datum's subject. `J` is what else the phase keeps. -/
theorem reportPhase (act : δ → Desk → Outcome Desk) (about : X → String) (subject : δ → String)
    (J : List δ → Desk → Prop) {s : Desk} (ds : List δ) (hfiled : Filed published s.archive)
    (hnone : published report = []) (hlen : ds.length < 2147483648) (hJ : J [] s)
    (hstep : ∀ pre d post s, ds = pre ++ d :: post → J pre s →
      ∃ s' x, act d s = .done s' ∧ J (pre ++ [d]) s' ∧ about x = subject d ∧
        s'.archive = s.archive.f1Message (call x)) :
    ∃ (s' : Desk) (xs : List X), runAll act ds s = .done s' ∧ J ds s' ∧
      xs.map about = ds.map subject ∧
      Filed (Function.update published report (xs.map fun x => (call x).publish)) s'.archive := by
  have hrun : ∃ s', runAll act ds s = .done s' ∧
      ReportInv call report about subject J published ds s' := by
    refine runAll_invariant ds ⟨hJ, [], rfl, ?_, fun h => absurd (Function.update_self _ _ _) h⟩ ?_
    · rwa [List.map_nil, ← hnone, Function.update_eq_self]
    · intro pre d post s e h
      obtain ⟨s', x, hs', hJ', hx, harchive⟩ := hstep pre d post s e h.1
      refine ⟨s', hs', reportInv_step hcall h ?_ hJ' hx harchive⟩
      rw [e, List.length_append, List.length_cons] at hlen
      omega
  obtain ⟨s', hdone, hJ', xs, hxs, hf, -⟩ := hrun
  exact ⟨s', xs, hdone, hJ', hxs, hf⟩

end ReportPhase

/-- The order books: one execution order each. -/
theorem booksPhase {published : Report → List (List Item)} {s : Desk} (hwired : Wired true s)
    (hfiled : Filed published s.archive) (hnone : published .executions = [])
    (books : List OrderBook) (htwo : ∀ book ∈ books, book.TwoSided)
    (hlen : books.length < 2147483648) :
    ∃ (s' : Desk) (orders : List ExecutionOrder), runAll onOrderBook books s = .done s' ∧
      Wired true s' ∧ s'.riskSrv = s.riskSrv ∧ s'.inquirySrv = s.inquirySrv ∧
      orders.map (fun order => order.product.productId) =
        books.map OrderBook.cusip ∧
      Filed (Function.update published .executions
        (orders.map BondHistoricalExecutionDataConnector.publish)) s'.archive := by
  obtain ⟨s', orders, hrun, ⟨hwired', hrisk, hinquiry⟩, horders, hfiled'⟩ :=
    reportPhase (fun order => (rfl : (F1Call.execution order).report = .executions)) onOrderBook
      (fun order => order.product.productId) OrderBook.cusip
      (fun _ d => Wired true d ∧ d.riskSrv = s.riskSrv ∧ d.inquirySrv = s.inquirySrv)
      books hfiled hnone hlen ⟨hwired, rfl, rfl⟩ (by
        intro pre book post d e hJ
        obtain ⟨hd, hrisk, hinquiry⟩ := hJ
        have hmem : book ∈ books := by
          rw [e]
          exact List.mem_append_right _ List.mem_cons_self
        obtain ⟨algo, order, horder, hdone⟩ := onOrderBook_eq hd (htwo book hmem)
        refine ⟨_, order, hdone,
          ⟨wired_onOrderBook hd (htwo book hmem) hdone, hrisk, hinquiry⟩, ?_, rfl⟩
        rw [horder, Bond.productId_ofCusip])
  exact ⟨s', orders, hrun, hwired', hrisk, hinquiry, horders, hfiled'⟩

/-- The prices: one stream each. -/
theorem pricesPhase {published : Report → List (List Item)} {s : Desk} (hwired : Wired true s)
    (hfiled : Filed published s.archive) (hnone : published .streaming = [])
    (prices : List Price) (hlen : prices.length < 2147483648) :
    ∃ (s' : Desk) (streams : List PriceStream),
      runAll (fun price d => .done (onPrice price d)) prices s = .done s' ∧
      Wired true s' ∧ s'.inquirySrv = s.inquirySrv ∧
      streams.map PriceStream.cusip = prices.map Price.cusip ∧
      Filed (Function.update published .streaming
        (streams.map BondHistoricalStreamingDataConnector.publish)) s'.archive := by
  obtain ⟨s', streams, hrun, ⟨hwired', hinquiry⟩, hstreams, hfiled'⟩ :=
    reportPhase (fun stream => (rfl : (F1Call.streaming stream).report = .streaming))
      (fun price d => .done (onPrice price d)) PriceStream.cusip Price.cusip
      (fun _ d => Wired true d ∧ d.inquirySrv = s.inquirySrv)
      prices hfiled hnone hlen ⟨hwired, rfl⟩ (by
        intro pre price post d _ hJ
        obtain ⟨hd, hinquiry⟩ := hJ
        refine ⟨_, BondAlgoStreamingService.streamFor price, rfl,
          ⟨wired_onPrice hd price, ?_⟩, rfl, ?_⟩ <;> rw [onPrice_eq hd]
        · exact hinquiry
        · rfl)
  exact ⟨s', streams, hrun, hwired', hinquiry, hstreams, hfiled'⟩

/-- The inquiries, if their ids are pairwise distinct: one done inquiry each. -/
theorem inquiriesPhase {published : Report → List (List Item)} {s : Desk} (hwired : Wired true s)
    (hfiled : Filed published s.archive) (hnone : published .allinquires = [])
    (hempty : s.inquirySrv.bondInquiry = []) (inquiries : List Inquiry)
    (hstate : ∀ inquiry ∈ inquiries, inquiry.state = .received)
    (hids : (inquiries.map Inquiry.inquiryId).Nodup) (hlen : inquiries.length < 2147483648) :
    ∃ (s' : Desk) (finished : List Inquiry), runAll acceptInquiry inquiries s = .done s' ∧
      finished.map (fun inquiry => inquiry.product.productId) =
        inquiries.map (fun inquiry => inquiry.product.productId) ∧
      Filed (Function.update published .allinquires
        (finished.map BondHistoricalInquiryDataConnector.publish)) s'.archive := by
  obtain ⟨s', finished, hrun, -, hfinished, hfiled'⟩ :=
    reportPhase (fun inquiry => (rfl : (F1Call.inquiry inquiry).report = .allinquires))
      acceptInquiry (fun inquiry => inquiry.product.productId)
      (fun inquiry => inquiry.product.productId)
      (fun pre d => Wired true d ∧
        d.inquirySrv.bondInquiry.map Inquiry.inquiryId = pre.map Inquiry.inquiryId)
      inquiries hfiled hnone hlen ⟨hwired, by simp [hempty]⟩ (by
        intro pre inquiry post d e hJ
        obtain ⟨hd, hseen⟩ := hJ
        have hnew : inquiry.inquiryId ∉ d.inquirySrv.bondInquiry.map Inquiry.inquiryId := by
          rw [e, List.map_append, List.map_cons, List.nodup_append] at hids
          rw [hseen]
          exact fun hmem => hids.2.2 _ hmem _ List.mem_cons_self rfl
        have hmem : inquiry ∈ inquiries := by
          rw [e]
          exact List.mem_append_right _ List.mem_cons_self
        have hdone := acceptInquiry_eq hd (hstate inquiry hmem) hnew
        refine ⟨_, BondInquiryConnector.finished inquiry, hdone,
          ⟨wired_acceptInquiry hd (hstate inquiry hmem) hnew hdone, ?_⟩, rfl, rfl⟩
        rw [List.map_append, List.map_append, hseen]
        rfl)
  exact ⟨s', finished, hrun, hfinished, hfiled'⟩

end Desk

/-- **Risk blocks**: one for every trade, the k-th over the products of the first k trades in order
    of first appearance. -/
def BlocksOf (cusips : List String) (blocks : List (List PV01)) : Prop :=
  blocks.length = cusips.length ∧ ∀ (k : Nat) (data : List PV01), blocks[k]? = some data →
    data.map PV01.cusip = (cusips.take (k + 1)).eraseDups

theorem blocksOf_concat {cusips : List String} {blocks : List (List PV01)} {cusip : String}
    {data : List PV01} (h : BlocksOf cusips blocks)
    (hdata : data.map PV01.cusip = (cusips ++ [cusip]).eraseDups) :
    BlocksOf (cusips ++ [cusip]) (blocks ++ [data]) := by
  refine ⟨by simp [h.1], fun k data' hk => ?_⟩
  rcases getElem?_concat hk with hk | ⟨rfl, rfl⟩
  · have hlt := (List.getElem?_eq_some_iff.mp hk).1
    have hle : k + 1 ≤ cusips.length := by
      rw [← h.1]
      exact hlt
    rw [List.take_append_of_le_length hle]
    exact h.2 k data' hk
  · have hle : (cusips ++ [cusip]).length ≤ blocks.length + 1 := by
      rw [List.length_append, h.1]
      exact Nat.le_refl _
    rw [hdata, List.take_of_length_le hle]

namespace Desk

/-- What holds while the trades fill the risk and the position report in turn. -/
def TradesInv (published : Report → List (List Item))
    (inquirySrv : BondInquiryService InquiryDataListener) (pre : List Trade) (d : Desk) : Prop :=
  Wired true d ∧ d.inquirySrv = inquirySrv ∧
  d.riskSrv.riskPosition.map PV01.cusip = (pre.map Trade.cusip).eraseDups ∧
  ∃ (blocks : List (List PV01)) (positions : List (ℤ × Position)),
    BlocksOf (pre.map Trade.cusip) blocks ∧
    positions.map (fun data => data.2.product.productId) = pre.map Trade.cusip ∧
    Filed (Function.update (Function.update published .risk
      (blocks.map BondHistoricalRiskDataConnector.publish)) .position
      (positions.map fun data =>
        BondHistoricalPositionDataConnector.publish data.1 data.2)) d.archive ∧
    (blocks ≠ [] → d.archive.f1 = ⟨some Report.risk.file, false⟩)

/-- One trade more: the risk service's record, then the position service's. -/
theorem tradesInv_step {published : Report → List (List Item)}
    {inquirySrv : BondInquiryService InquiryDataListener} {pre : List Trade} {d : Desk}
    (h : TradesInv published inquirySrv pre d) (hlen : pre.length + 1 < 2147483648)
    (uninit : Nat → ℤ) (trade : Trade) :
    TradesInv published inquirySrv (pre ++ [trade]) (onTrade uninit trade d) := by
  obtain ⟨hd, hinquiry, hkeys, blocks, positions, hblocks, hpositions, hf, hon⟩ := h
  have hblen : blocks.length = pre.length := by rw [hblocks.1, List.length_map]
  have hplen : positions.length = pre.length := by
    have hl := congrArg List.length hpositions
    rwa [List.length_map, List.length_map] at hl
  generalize hdata : (d.riskSrv.addPosition (uninit d.reads) (.ofTrade trade)).1.riskPosition =
    data
  have hdatakeys : data.map PV01.cusip = (pre.map Trade.cusip ++ [trade.cusip]).eraseDups := by
    rw [← hdata]
    show (BondRiskService.updated _ _ _).map PV01.cusip = _
    rw [BondRiskService.keys_updated, hkeys, eraseDups_concat]
    rfl
  obtain ⟨hrisk, hf1⟩ := filed_f1Message hf (.risk data)
    (fun hne => hon (by simpa [F1Call.report] using hne))
    (by simpa [F1Call.report, hblen] using hlen)
  obtain ⟨hposition, hsame⟩ := filed_positionMessage hrisk (uninit (d.reads + 1)) (.ofTrade trade)
    (by simpa [addTo, F1Call.report, hplen] using hlen)
  have hadd : addTo (addTo (Function.update (Function.update published .risk
        (blocks.map BondHistoricalRiskDataConnector.publish)) .position
        (positions.map fun data =>
          BondHistoricalPositionDataConnector.publish data.1 data.2))
        .risk (BondHistoricalRiskDataConnector.publish data)) .position
        (BondHistoricalPositionDataConnector.publish (uninit (d.reads + 1)) (.ofTrade trade)) =
      Function.update (Function.update published .risk
        ((blocks ++ [data]).map BondHistoricalRiskDataConnector.publish)) .position
        ((positions ++ [(uninit (d.reads + 1), Position.ofTrade trade)]).map fun data =>
          BondHistoricalPositionDataConnector.publish data.1 data.2) := by
    funext r
    cases r <;> simp [addTo]
  refine ⟨wired_onTrade hd uninit trade, ?_⟩
  rw [onTrade_eq hd, hdata]
  refine ⟨hinquiry, ?_, blocks ++ [data],
    positions ++ [(uninit (d.reads + 1), Position.ofTrade trade)], ?_, ?_, ?_, ?_⟩
  · rw [List.map_append]
    exact hdatakeys
  · rw [List.map_append]
    exact blocksOf_concat hblocks hdatakeys
  · rw [List.map_append, List.map_append, hpositions]
    rfl
  · rw [← hadd]
    exact hposition
  · exact fun _ => hsame.trans hf1

/-- The trades: one position and one risk block each. -/
theorem tradesPhase (uninit : Nat → ℤ) {published : Report → List (List Item)} {s : Desk}
    (hwired : Wired true s) (hfiled : Filed published s.archive)
    (hnone : published .risk = [] ∧ published .position = [])
    (hempty : s.riskSrv.riskPosition = []) (trades : List Trade)
    (hlen : trades.length < 2147483648) :
    ∃ s', runAll (fun trade d => .done (onTrade uninit trade d)) trades s = .done s' ∧
      TradesInv published s.inquirySrv trades s' := by
  refine runAll_invariant trades ⟨hwired, rfl, by rw [hempty]; rfl, [], [],
    ⟨rfl, fun k data hk => by cases hk⟩, rfl, ?_, fun h => absurd rfl h⟩ ?_
  · rwa [List.map_nil, List.map_nil, ← hnone.1, Function.update_eq_self, hnone.1, ← hnone.2,
      Function.update_eq_self]
  · intro pre trade post d e h
    refine ⟨_, rfl, tradesInv_step h ?_ uninit trade⟩
    rw [e, List.length_append, List.length_cons] at hlen
    omega

end Desk

/-! ## 3. The rows of a report -/

/-- **One row per line**: behind its heading line the report has one row for every CUSIP, in order,
    keyed 1, 2, 3, … and with the CUSIP in the given column. -/
def OneRowPerLine (content : Option (List Item)) (report : Report) (column : Nat)
    (cusips : List String) : Prop :=
  ∃ rows, content.map rowsOf = some (report.headings :: rows) ∧ rows.length = cusips.length ∧
    ∀ (k : Nat) cusip row, cusips[k]? = some cusip → rows[k]? = some row →
      row[0]? = some (.key (k + 1)) ∧ ∃ width, row[column]? = some (.text width cusip)

/-- **One block per line**: behind its header the risk report has one block for every CUSIP, keyed
    1, 2, 3, …, and the k-th lists the distinct ones among the first k. -/
def OneBlockPerLine (content : Option (List Item)) (cusips : List String) : Prop :=
  ∃ blocks, BlocksOf cusips blocks ∧ content = some (Report.risk.header ++
    numbered (blocks.map fun data =>
      HistoricalDataService.record (BondHistoricalRiskDataConnector.publish data)))

/-- A report of single-line records about some data has one row for each datum. -/
theorem oneRowPerLine_records {X : Type} (report : Report) (column : Nat)
    {publish : X → List Item} {about : X → String} (hsingle : ∀ x, SingleLine (publish x))
    (hcolumn : ∀ x key, ∃ width, (rowOf (publish x) key)[column]? = some (.text width (about x)))
    {xs : List X} {cusips : List String} (hxs : xs.map about = cusips) :
    OneRowPerLine (some (report.header ++
      numbered ((xs.map publish).map HistoricalDataService.record))) report column cusips := by
  subst hxs
  refine ⟨((xs.map publish).zipIdx 1).map fun entry => rowOf entry.1 entry.2, ?_, by simp, ?_⟩
  · rw [Option.map_some, rowsOf_report report]
    intro p hp
    obtain ⟨x, -, rfl⟩ := List.mem_map.mp hp
    exact hsingle x
  · intro k cusip row hcusip hrow
    rw [List.getElem?_map] at hcusip
    obtain ⟨x, hx, rfl⟩ := Option.map_eq_some_iff.mp hcusip
    rw [List.getElem?_map, List.getElem?_zipIdx, List.getElem?_map, hx] at hrow
    obtain rfl : rowOf (publish x) ((1 + k : Nat) : ℤ) = row := Option.some.inj hrow
    refine ⟨?_, hcolumn x _⟩
    rw [Nat.add_comm]
    rfl

/-- What a filed report holds when something has been published for it. -/
theorem Filed.report {published : Report → List (List Item)} {a : Archive} (h : Filed published a)
    (report : Report) {X : Type} (publish : X → List Item) {xs : List X}
    (hp : published report = xs.map publish) (hne : xs ≠ []) :
    a.disk report.file = some (report.header ++
      numbered ((xs.map publish).map HistoricalDataService.record)) := by
  have hnonempty : published report ≠ [] := by
    rw [hp]
    exact mt List.map_eq_nil_iff.mp hne
  rw [h.disk report hnonempty, hp]

/-- A filed report of single-line records about some data has one row for each datum. -/
theorem Filed.oneRowPerLine {published : Report → List (List Item)} {a : Archive}
    (h : Filed published a) (report : Report) (column : Nat) {X : Type} {publish : X → List Item}
    {about : X → String} (hsingle : ∀ x, SingleLine (publish x))
    (hcolumn : ∀ x key, ∃ width, (rowOf (publish x) key)[column]? = some (.text width (about x)))
    {xs : List X} {cusips : List String} (hp : published report = xs.map publish)
    (hxs : xs.map about = cusips) (hne : cusips ≠ []) :
    OneRowPerLine (a.disk report.file) report column cusips := by
  have hxne : xs ≠ [] := fun e => hne (by rw [← hxs, e]; rfl)
  rw [h.report report publish hp hxne]
  exact oneRowPerLine_records report column hsingle hcolumn hxs

/-! ## 4. Main -/

/-- A field of a line. -/
def fieldText (i : Nat) (line : List Char) : String := ((fields line)[i]?).getD ""

/-- A line of marketdata.txt: a CUSIP and a price. -/
def BookLine (line : List Char) : Prop :=
  ∃ cusip price, (fields line)[0]? = some cusip ∧ (fields line)[1]? = some price ∧ PriceForm price

/-- A line of trades.txt: five fields, the fourth a `long`. -/
def TradeLine (line : List Char) : Prop :=
  5 ≤ (fields line).length ∧
    ∃ quantity n, (fields line)[3]? = some quantity ∧ LongText quantity.toList n

/-- A line of prices.txt: a CUSIP, a mid and a spread. -/
def PriceLine (line : List Char) : Prop :=
  ∃ cusip mid spread, (fields line)[0]? = some cusip ∧ (fields line)[1]? = some mid ∧
    (fields line)[2]? = some spread ∧ PriceForm mid ∧ PriceForm spread

/-- A line of inquiries.txt: five fields, the fourth a `long`, the fifth a `long` or a price. -/
def InquiryLine (line : List Char) : Prop :=
  ∃ quantity price n, (fields line)[3]? = some quantity ∧ (fields line)[4]? = some price ∧
    LongText quantity.toList n ∧ ((∃ p, LongText price.toList p) ∨ PriceForm price)

/-- **Well-formed input**: every data line is, no inquiry id is used twice, and no file has 2^31
    data lines. -/
structure WellFormedInput (marketdata trades prices inquiries : String) : Prop where
  bookLines : ∀ line ∈ dataLines marketdata, BookLine line
  tradeLines : ∀ line ∈ dataLines trades, TradeLine line
  priceLines : ∀ line ∈ dataLines prices, PriceLine line
  inquiryLines : ∀ line ∈ dataLines inquiries, InquiryLine line
  ids : ((dataLines inquiries).map (fieldText 0)).Nodup
  booksShort : (dataLines marketdata).length < 2147483648
  tradesShort : (dataLines trades).length < 2147483648
  pricesShort : (dataLines prices).length < 2147483648
  inquiriesShort : (dataLines inquiries).length < 2147483648

theorem fieldText_eq {i : Nat} {line : List Char} {text : String}
    (h : (fields line)[i]? = some text) : fieldText i line = text := by
  rw [fieldText, h]
  rfl

section Lines

variable {line : List Char}

theorem bookLine_decode (h : BookLine line) :
    ∃ book, BondMarketDataConnector.decode (fields line) = .ok book ∧
      book.cusip = fieldText 0 line ∧ book.TwoSided := by
  obtain ⟨cusip, price, hc, hp, hform⟩ := h
  obtain ⟨mid, hmid⟩ := decimalBondPrice_form hform
  obtain ⟨book, hbook, hproduct, htwo⟩ := BondMarketDataConnector.decode_ok hc hp hmid
  refine ⟨book, hbook, ?_, htwo⟩
  rw [OrderBook.cusip, hproduct, Bond.productId_ofCusip, fieldText_eq hc]

theorem tradeLine_decode (h : TradeLine line) :
    ∃ trade, BondTradeBookingConnector.decode (fields line) = .ok trade ∧
      trade.cusip = fieldText 0 line := by
  obtain ⟨hlen, quantity, n, hq, hn⟩ := h
  have hc : (fields line)[0]? = some (fields line)[0] := List.getElem?_eq_getElem (by omega)
  obtain ⟨trade, htrade, hproduct⟩ := BondTradeBookingConnector.decode_ok hlen hc hq hn
  refine ⟨trade, htrade, ?_⟩
  rw [Trade.cusip, hproduct, Bond.productId_ofCusip, fieldText_eq hc]

theorem priceLine_decode (h : PriceLine line) :
    ∃ price, BondPricingConnector.decode (fields line) = .ok price ∧
      price.cusip = fieldText 0 line := by
  obtain ⟨cusip, mid, spread, hc, hm, hs, hmid, hspread⟩ := h
  obtain ⟨midPrice, hmid⟩ := decimalBondPrice_form hmid
  obtain ⟨spreadPrice, hspread⟩ := decimalBondPrice_form hspread
  obtain ⟨price, hprice, hproduct⟩ := BondPricingConnector.decode_ok hc hm hs hmid hspread
  refine ⟨price, hprice, ?_⟩
  rw [Price.cusip, hproduct, Bond.productId_ofCusip, fieldText_eq hc]

theorem inquiryLine_decode (h : InquiryLine line) :
    ∃ inquiry, BondInquiryConnector.decode (fields line) = .ok inquiry ∧
      (inquiry.inquiryId, inquiry.product.productId) = (fieldText 0 line, fieldText 1 line) ∧
      inquiry.state = .received := by
  obtain ⟨quantity, price, n, hq, hp, hn, hprice⟩ := h
  have hlen := (List.getElem?_eq_some_iff.mp hp).1
  have h0 : (fields line)[0]? = some (fields line)[0] := List.getElem?_eq_getElem (by omega)
  have h1 : (fields line)[1]? = some (fields line)[1] := List.getElem?_eq_getElem (by omega)
  obtain ⟨p, hpt⟩ : ∃ p, stol price.toList = .ok p := by
    rcases hprice with ⟨p, hp⟩ | hform
    · exact ⟨p, stol_longText hp⟩
    · exact stol_form hform
  obtain ⟨inquiry, hinquiry, hid, hproduct, hstate⟩ :=
    BondInquiryConnector.decode_ok h0 h1 hq hp (stol_longText hn) hpt
  refine ⟨inquiry, hinquiry, ?_, hstate⟩
  rw [hid, hproduct, Bond.productId_ofCusip, fieldText_eq h0, fieldText_eq h1]

end Lines

namespace Desk

/-- What the four files decode to, and what is known of it. -/
structure FilesRead (marketdata trades prices inquiries : String) (books : List OrderBook)
    (trs : List Trade) (prs : List Price) (inqs : List Inquiry) : Prop where
  readBooks : ∀ (act : OrderBook → Desk → Outcome Desk) (d : Desk),
    BondMarketDataConnector.readFile act (some marketdata) d = runAll act books d
  readTrades : ∀ (act : Trade → Desk → Outcome Desk) (d : Desk),
    BondTradeBookingConnector.readFile act (some trades) d = runAll act trs d
  readPrices : ∀ (act : Price → Desk → Outcome Desk) (d : Desk),
    BondPricingConnector.readFile act (some prices) d = runAll act prs d
  readInquiries : ∀ (act : Inquiry → Desk → Outcome Desk) (d : Desk),
    BondInquiryConnector.readFile act (some inquiries) d = runAll act inqs d
  bookCusips : books.map OrderBook.cusip = (dataLines marketdata).map (fieldText 0)
  tradeCusips : trs.map Trade.cusip = (dataLines trades).map (fieldText 0)
  priceCusips : prs.map Price.cusip = (dataLines prices).map (fieldText 0)
  inquiryCusips : inqs.map (fun inquiry => inquiry.product.productId) =
    (dataLines inquiries).map (fieldText 1)
  twoSided : ∀ book ∈ books, book.TwoSided
  received : ∀ inquiry ∈ inqs, inquiry.state = .received
  ids : (inqs.map Inquiry.inquiryId).Nodup

/-- Well-formed files decode to their ends. -/
theorem filesRead {marketdata trades prices inquiries : String}
    (hwf : WellFormedInput marketdata trades prices inquiries) :
    ∃ books trs prs inqs, FilesRead marketdata trades prices inquiries books trs prs inqs := by
  obtain ⟨books, hbooks, hbookCusips, htwo⟩ := readLines_decoded (σ := Desk) fun line hl =>
    bookLine_decode (hwf.bookLines line hl)
  obtain ⟨trs, htrs, htradeCusips, -⟩ := readLines_decoded (σ := Desk) fun line hl =>
    (tradeLine_decode (hwf.tradeLines line hl)).imp fun _ h => ⟨h.1, h.2, trivial⟩
  obtain ⟨prs, hprs, hpriceCusips, -⟩ := readLines_decoded (σ := Desk) fun line hl =>
    (priceLine_decode (hwf.priceLines line hl)).imp fun _ h => ⟨h.1, h.2, trivial⟩
  obtain ⟨inqs, hinqs, hinqPairs, hstate⟩ := readLines_decoded (σ := Desk) fun line hl =>
    inquiryLine_decode (hwf.inquiryLines line hl)
  have hids : inqs.map Inquiry.inquiryId = (dataLines inquiries).map (fieldText 0) := by
    simpa [Function.comp_def] using congrArg (List.map Prod.fst) hinqPairs
  refine ⟨books, trs, prs, inqs, { readBooks := hbooks, readTrades := htrs, readPrices := hprs,
                                   readInquiries := hinqs, bookCusips := hbookCusips,
                                   tradeCusips := htradeCusips, priceCusips := hpriceCusips,
                                   inquiryCusips := ?_, twoSided := htwo, received := hstate,
                                   ids := hids ▸ hwf.ids }⟩
  simpa [Function.comp_def] using congrArg (List.map Prod.snd) hinqPairs

section Main

variable (uninit : Nat → ℤ) (files : String → Option String) (disk : String → Option (List Item))
  {marketdata trades prices inquiries : String}
  (hmarketdata : files "marketdata.txt" = some marketdata)
  (htrades : files "trades.txt" = some trades) (hprices : files "prices.txt" = some prices)
  (hinquiries : files "inquiries.txt" = some inquiries)
  (hwf : WellFormedInput marketdata trades prices inquiries)

include hmarketdata htrades hprices hinquiries hwf

/-- The four phases of `main`, one after the other: what has been published for each report when it
    ends, and that the files hold it. -/
theorem main_filed :
    ∃ d published, main uninit files disk = .done d ∧ Filed published d.archive ∧
      (∃ orders : List ExecutionOrder,
        published .executions = orders.map BondHistoricalExecutionDataConnector.publish ∧
        orders.map (fun order => order.product.productId) =
          (dataLines marketdata).map (fieldText 0)) ∧
      (∃ streams : List PriceStream,
        published .streaming = streams.map BondHistoricalStreamingDataConnector.publish ∧
        streams.map PriceStream.cusip = (dataLines prices).map (fieldText 0)) ∧
      (∃ positions : List (ℤ × Position),
        published .position = positions.map (fun data =>
          BondHistoricalPositionDataConnector.publish data.1 data.2) ∧
        positions.map (fun data => data.2.product.productId) =
          (dataLines trades).map (fieldText 0)) ∧
      (∃ blocks : List (List PV01),
        published .risk = blocks.map BondHistoricalRiskDataConnector.publish ∧
        BlocksOf ((dataLines trades).map (fieldText 0)) blocks) ∧
      (∃ finished : List Inquiry,
        published .allinquires = finished.map BondHistoricalInquiryDataConnector.publish ∧
        finished.map (fun inquiry => inquiry.product.productId) =
          (dataLines inquiries).map (fieldText 1)) := by
  obtain ⟨books, trs, prs, inqs, hread⟩ := filesRead hwf
  have hlength : ∀ {δ : Type} {f : δ → String} {g : List Char → String} {ds : List δ}
      {lines : List (List Char)}, ds.map f = lines.map g → ds.length = lines.length := by
    intro δ f g ds lines h
    simpa using congrArg List.length h
  have hbooksShort : books.length < 2147483648 := hlength hread.bookCusips ▸ hwf.booksShort
  have htradesShort : trs.length < 2147483648 := hlength hread.tradeCusips ▸ hwf.tradesShort
  have hpricesShort : prs.length < 2147483648 := hlength hread.priceCusips ▸ hwf.pricesShort
  have hinquiriesShort : inqs.length < 2147483648 :=
    hlength hread.inquiryCusips ▸ hwf.inquiriesShort
  obtain ⟨d₁, orders, hrun₁, hw₁, hrisk₁, hinq₁, horders, hf₁⟩ := booksPhase
    (wired_wired true disk) (filed_fresh disk) rfl books hread.twoSided hbooksShort
  obtain ⟨d₂, hrun₂, hw₂, hinq₂, -, blocks, positions, hblocks, hpositions, hf₂, -⟩ :=
    tradesPhase uninit hw₁ hf₁ ⟨by simp, by simp⟩ (by rw [hrisk₁]; rfl) trs htradesShort
  obtain ⟨d₃, streams, hrun₃, hw₃, hinq₃, hstreams, hf₃⟩ := pricesPhase hw₂ hf₂ (by simp) prs
    hpricesShort
  have hnoInquiries : d₃.inquirySrv.bondInquiry = [] := by
    rw [hinq₃, hinq₂, hinq₁]
    rfl
  obtain ⟨d₄, finished, hrun₄, hfinished, hf₄⟩ := inquiriesPhase hw₃ hf₃ (by simp) hnoInquiries
    inqs hread.received hread.ids hinquiriesShort
  have hmain : main uninit files disk = .done d₄ := by
    have htraded : runAll (fun trade d => .done (onTradeWith id uninit trade d)) trs d₁ = .done d₂ :=
      hrun₂
    unfold main mainWith readFiles
    rw [hmarketdata, htrades, hprices, hinquiries]
    simp only [hread.readBooks, hread.readTrades, hread.readPrices, hread.readInquiries, hrun₁,
      htraded, hrun₃, hrun₄, Outcome.done_andThen]
  refine ⟨d₄, _, hmain, hf₄, ⟨orders, by simp, horders.trans hread.bookCusips⟩,
    ⟨streams, by simp, hstreams.trans hread.priceCusips⟩,
    ⟨positions, by simp, hpositions.trans hread.tradeCusips⟩, ⟨blocks, by simp, ?_⟩,
    ⟨finished, by simp, hfinished.trans hread.inquiryCusips⟩⟩
  rw [← hread.tradeCusips]
  exact hblocks

end Main

/-- Input files with one data line each, and two trades. -/
def smallMarketdata : String := "CUSIP,mid\n912828M72,99-000\n"

def smallTrades : String :=
  "CUSIP,TradeID,Book,Quantity,Side\n912828M72,T1,TRSY1,1000,BUY\n912828N22,T2,TRSY2,500,SELL\n"

def smallPrices : String := "CUSIP,mid,bidofferspread\n912828M72,99-00+,0-002\n"

def smallInquiries : String :=
  "InquiryID,CUSIP,side,quantity,price,state\nI1,912828M72,BUY,1000,0,RECEIVED\n"

def smallFiles : String → Option String
  | "marketdata.txt" => some smallMarketdata
  | "trades.txt" => some smallTrades
  | "prices.txt" => some smallPrices
  | "inquiries.txt" => some smallInquiries
  | _ => none

theorem dataLines_small :
    dataLines smallMarketdata = ["912828M72,99-000".toList] ∧
    dataLines smallTrades =
      ["912828M72,T1,TRSY1,1000,BUY".toList, "912828N22,T2,TRSY2,500,SELL".toList] ∧
    dataLines smallPrices = ["912828M72,99-00+,0-002".toList] ∧
    dataLines smallInquiries = ["I1,912828M72,BUY,1000,0,RECEIVED".toList] := by
  decide +kernel

theorem wellFormed_small :
    WellFormedInput smallMarketdata smallTrades smallPrices smallInquiries := by
  obtain ⟨hbooks, htrades, hprices, hinquiries⟩ := dataLines_small
  constructor <;> simp only [hbooks, htrades, hprices, hinquiries, List.forall_mem_cons,
    List.not_mem_nil, false_imp_iff, implies_true, and_true]
  case bookLines =>
    exact ⟨"912828M72", "99-000", by decide +kernel, by decide +kernel, ['9', '9'], '0', '0', '0',
      by decide +kernel, by decide, by decide, by decide, .inl rfl⟩
  case tradeLines =>
    exact ⟨⟨by decide +kernel, "1000", 1000, by decide +kernel, ['1', '0', '0', '0'], by decide,
        .inl ⟨by decide +kernel, rfl⟩, by decide, by decide⟩,
      ⟨by decide +kernel, "500", 500, by decide +kernel, ['5', '0', '0'], by decide,
        .inl ⟨by decide +kernel, rfl⟩, by decide, by decide⟩⟩
  case priceLines =>
    exact ⟨"912828M72", "99-00+", "0-002", by decide +kernel, by decide +kernel, by decide +kernel,
      ⟨['9', '9'], '0', '0', '+', by decide +kernel, by decide, by decide, by decide, .inr rfl⟩,
      ⟨['0'], '0', '0', '2', by decide +kernel, by decide, by decide, by decide, .inl rfl⟩⟩
  case inquiryLines =>
    exact ⟨"1000", "0", 1000, by decide +kernel, by decide +kernel,
      ⟨['1', '0', '0', '0'], by decide, .inl ⟨by decide +kernel, rfl⟩, by decide, by decide⟩,
      .inl ⟨0, ['0'], by decide, .inl ⟨by decide +kernel, rfl⟩, by decide, by decide⟩⟩
  all_goals simp

end Desk

end BondTrading
