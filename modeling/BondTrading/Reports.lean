/-
  File:      BondTrading/Reports.lean
  Subject:   THE REPORTS AS FUNCTIONS OF THE MESSAGES SO FAR.

  * `published` -- what each report should have been given, said without the services' code;
  * `filedOver` -- the disk with these reports on it, over the disk as it was;
  * `disk_run_iff` -- after messages in any order, without an overflow, that is the disk exactly when no
    flow comes back after another one.

  A floating-point number stands in a report as it is computed; it is rounded where it is printed.
-/
import BondTrading.Routing
import BondTrading.Longs

namespace BondTrading

open Cxx

/-! ## 1. What is published -/

/-- **What each report should have been given** after some messages. -/
def published (uninit : Nat → ℤ) (ms : List Message) : Report → List (List Item)
  | .position => along (fun pre trade => [BondHistoricalPositionDataConnector.publish
      (uninit (2 * pre.length + 1)) (.ofTrade trade)]) [] (tradesIn ms)
  | .risk => along (fun pre trade => [BondHistoricalRiskDataConnector.publish
      (riskEntries uninit (pre ++ [trade]))]) [] (tradesIn ms)
  | .executions => (ordersFor (booksIn ms)).map BondHistoricalExecutionDataConnector.publish
  | .streaming => (pricesIn ms).map fun price =>
      BondHistoricalStreamingDataConnector.publish (BondAlgoStreamingService.streamFor price)
  | .allinquires => (inquiriesIn ms).map fun inquiry =>
      BondHistoricalInquiryDataConnector.publish (BondInquiryConnector.finished inquiry)

/-- The content of a report that something was published for. -/
def contentOf (report : Report) (published : List (List Item)) : List Item :=
  report.header ++ numbered (published.map HistoricalDataService.record)

section Published

variable (uninit : Nat → ℤ) (ms : List Message)

/-- One message more: a report on `f1` is given what its service has written. -/
theorem published_concat (m : Message) {report : Report} (h : report ≠ .position) :
    published uninit (ms ++ [m]) report = published uninit ms report ++
      ((Desk.f1Owed uninit ms m).filter fun call => call.report = report).map F1Call.publish := by
  cases report with
  | position => exact absurd rfl h
  | risk =>
      rw [published, tradesIn_concat, published]
      cases m with
      | trade trade =>
          rw [show (Message.trade trade).asTrade.toList = [trade] from rfl, along_concat]
          rfl
      | book book => simp [Message.asTrade, Desk.f1Owed, F1Call.report]
      | price price => simp [Message.asTrade, Desk.f1Owed, F1Call.report]
      | inquiry inquiry => simp [Message.asTrade, Desk.f1Owed, F1Call.report]
  | executions =>
      rw [published, booksIn_concat, published]
      cases m with
      | book book =>
          rw [show (Message.book book).asBook.toList = [book] from rfl, ordersFor_concat,
            List.map_append]
          simp [Desk.f1Owed, F1Call.report, List.filter_map, Function.comp_def, F1Call.publish]
      | trade trade => simp [Message.asBook, Desk.f1Owed, F1Call.report]
      | price price => simp [Message.asBook, Desk.f1Owed, F1Call.report]
      | inquiry inquiry => simp [Message.asBook, Desk.f1Owed, F1Call.report]
  | streaming =>
      rw [published, pricesIn_concat, List.map_append, published]
      cases m <;>
        simp [Message.asPrice, Desk.f1Owed, F1Call.report, F1Call.publish, List.filter_map,
          Function.comp_def]
  | allinquires =>
      rw [published, inquiriesIn_concat, List.map_append, published]
      cases m <;>
        simp [Message.asInquiry, Desk.f1Owed, F1Call.report, F1Call.publish, List.filter_map,
          Function.comp_def]

/-- **The services on `f1` write what should be published.** -/
theorem published_f1 {report : Report} (h : report ≠ .position) :
    ((along (Desk.f1Owed uninit) [] ms).filter fun call => call.report = report).map
      F1Call.publish = published uninit ms report := by
  induction ms using List.reverseRecOn with
  | nil => cases report <;> rfl
  | append_singleton ms m ih =>
      rw [along_concat, List.nil_append, List.filter_append, List.map_append, ih,
        published_concat uninit ms m h]

/-- So does the position service. -/
theorem published_position :
    (along (Desk.positionsOwed uninit) [] ms).map
        (fun call => BondHistoricalPositionDataConnector.publish call.1 call.2) =
      published uninit ms .position := by
  induction ms using List.reverseRecOn with
  | nil => rfl
  | append_singleton ms m ih =>
      rw [along_concat, List.nil_append, List.map_append, ih, published, published, tradesIn_concat]
      cases m with
      | trade trade =>
          rw [show (Message.trade trade).asTrade.toList = [trade] from rfl, along_concat]
          rfl
      | book book => simp [Message.asTrade, Desk.positionsOwed]
      | price price => simp [Message.asTrade, Desk.positionsOwed]
      | inquiry inquiry => simp [Message.asTrade, Desk.positionsOwed]

/-- What the file of a report on `f1` should hold. -/
theorem owed_eq {report : Report} (h : report ≠ .position) :
    owed Report.header F1Call.report F1Call.record report (along (Desk.f1Owed uninit) [] ms) =
      contentOf report (published uninit ms report) := by
  rw [← published_f1 uninit ms h, contentOf, List.map_map]
  rfl

end Published

/-! ## 2. The disk -/

/-- **The disk with the reports on it**: a report that nothing was published for is left as it was, and
    so is any other file. -/
def filedOver (disk : String → Option (List Item)) (published : Report → List (List Item))
    (file : String) : Option (List Item) :=
  match [Report.position, .risk, .executions, .streaming, .allinquires].find? fun report =>
      report.file = file with
  | some report =>
      if published report = [] then disk file else some (contentOf report (published report))
  | none => disk file

theorem filedOver_report (disk : String → Option (List Item))
    (published : Report → List (List Item)) (report : Report) :
    filedOver disk published report.file =
      if published report = [] then disk report.file
      else some (contentOf report (published report)) := by
  cases report <;> rfl

theorem filedOver_other (disk : String → Option (List Item))
    (published : Report → List (List Item)) {file : String} (h : ∀ report : Report, report.file ≠ file) :
    filedOver disk published file = disk file := by
  have hnone : [Report.position, .risk, .executions, .streaming, .allinquires].find?
      (fun report => report.file = file) = none :=
    List.find?_eq_none.mpr fun report _ => by simpa using h report
  rw [filedOver, hnone]

/-- A report is given something exactly when its flow has had a message that wrote something. -/
theorem published_eq_nil_iff {uninit : Nat → ℤ} {ms : List Message} {report : Report}
    (h : report ≠ .position) :
    published uninit ms report = [] ↔
      report ∉ (along (Desk.f1Owed uninit) [] ms).map F1Call.report := by
  rw [← published_f1 uninit ms h, List.map_eq_nil_iff, List.filter_eq_nil_iff]
  simp

namespace Desk

section Disk

variable {uninit : Nat → ℤ} {disk : String → Option (List Item)} {ms : List Message} {d : Desk}
  (hread : ∀ m ∈ ms, m.AsRead) (hlen : ms.length < 2147483648)
  (hrun : runAll (deliver uninit) ms (wired true disk) = .done d)

include hread in
theorem received_of_asRead : ∀ m ∈ ms, m.Received := by
  intro m hm
  have h := hread m hm
  cases m with
  | inquiry asked => exact h
  | trade _ | price _ | book _ => trivial

include hread hlen hrun

/-- The position report is right in any order. -/
theorem disk_position :
    d.archive.disk "position.txt" = filedOver disk (published uninit ms) "position.txt" := by
  obtain ⟨hfiled, -, hkept⟩ := positionFiled_deliver hlen hrun
  have hwritten : positionsWritten uninit ms (wired true disk) =
      along (positionsOwed uninit) [] ms := (held_run hread hrun).2.2
  have hpublished := published_position uninit ms
  rw [hwritten] at hfiled hkept
  rw [show "position.txt" = Report.position.file from rfl, filedOver_report, ← hpublished]
  by_cases hnone : along (positionsOwed uninit) [] ms = []
  · rw [if_pos (List.map_eq_nil_iff.mpr hnone)]
    exact hkept hnone
  · rw [if_neg (mt List.map_eq_nil_iff.mp hnone), contentOf, List.map_map]
    exact hfiled.disk (mt List.map_eq_nil_iff.mp hnone)

/-- A report on `f1` whose flow has had no message is left alone, and so is any file that is no
    report. -/
theorem disk_untouched {file : String} (hfile : file ≠ "position.txt")
    (hnone : ∀ report : Report, report.file = file → published uninit ms report = []) :
    d.archive.disk file = disk file := by
  have hinv := sharedInv_deliver (received_of_asRead hread) hlen hrun
  have hwritten : f1Written uninit ms (wired true disk) = along (f1Owed uninit) [] ms :=
    (held_run hread hrun).2.1
  have huntouched := hinv.untouched file fun report hmem e => by
    rw [hwritten] at hmem
    have hne : report ≠ .position := fun he => hfile (by rw [← e, he]; rfl)
    exact (published_eq_nil_iff hne).mp (hnone report e) hmem
  have hleft : d.archive.onF1Only.out.disk file = d.archive.disk file :=
    Function.update_of_ne hfile _ _
  rw [hleft, Function.update_of_ne hfile] at huntouched
  exact huntouched

omit hlen in
/-- A report on `f1` is given something exactly if its flow has had a message. -/
theorem published_ne_nil_iff {report : Report} (hreport : report ≠ .position) :
    published uninit ms report ≠ [] ↔ ∃ flow ∈ ms.map Message.flow, flow.report = report := by
  have hreports := reports_f1Written (steady_wired disk) (received_of_asRead hread) hrun
  have hwritten : f1Written uninit ms (wired true disk) = along (f1Owed uninit) [] ms :=
    (held_run hread hrun).2.1
  rw [Ne, published_eq_nil_iff hreport, ← hwritten, hreports, not_not, List.mem_map]

/-- **Messages whose flows are grouped leave every report as it should be.** -/
theorem disk_of_grouped (hgrouped : Grouped (ms.map Message.flow)) (file : String) :
    d.archive.disk file = filedOver disk (published uninit ms) file := by
  have hwritten : f1Written uninit ms (wired true disk) = along (f1Owed uninit) [] ms :=
    (held_run hread hrun).2.1
  have hright := (disk_report_iff (received_of_asRead hread) hlen hrun).mpr hgrouped
  rw [hwritten] at hright
  by_cases hposition : file = "position.txt"
  · rw [hposition]
    exact disk_position hread hlen hrun
  · by_cases hfile : ∃ report : Report, report.file = file
    · obtain ⟨report, rfl⟩ := hfile
      have hreport : report ≠ .position := fun e => hposition (by rw [e]; rfl)
      rw [filedOver_report]
      split_ifs with hnone
      · exact disk_untouched hread hlen hrun hposition fun r hr => Report.file_injective hr ▸ hnone
      · obtain ⟨flow, hflow, rfl⟩ := (published_ne_nil_iff hread hrun hreport).mp hnone
        rw [hright flow hflow, owed_eq uninit ms hreport]
    · rw [filedOver_other _ _ fun report e => hfile ⟨report, e⟩]
      exact disk_untouched hread hlen hrun hposition fun report e => absurd ⟨report, e⟩ hfile

end Disk

/-- **The disk after messages in any order**, as the readers make them and without an overflow: every
    report holds its header and what was published for it, keyed 1, 2, 3, …, and every other file is as
    it was, exactly when no flow comes back after another one. -/
theorem disk_run_iff {long : ℤ → ℤ} (hlong : LongArithmetic long) (uninit : Nat → ℤ)
    (disk : String → Option (List Item)) (ms : List Message) (hread : ∀ m ∈ ms, m.AsRead)
    (hfit : LongsFit uninit (tradesIn ms)) (hlen : ms.length < 2147483648) (d : Desk)
    (hrun : runAll (deliverWith long uninit) ms (wired true disk) = .done d) :
    (∀ file, d.archive.disk file = filedOver disk (published uninit ms) file) ↔
      Grouped (ms.map Message.flow) := by
  rw [runAll_deliverWith hlong hread hfit] at hrun
  refine ⟨fun h => ?_, fun hgrouped => disk_of_grouped hread hlen hrun hgrouped⟩
  have hwritten : f1Written uninit ms (wired true disk) = along (f1Owed uninit) [] ms :=
    (held_run hread hrun).2.1
  refine (disk_report_iff (received_of_asRead hread) hlen hrun).mp fun flow hflow => ?_
  have hgiven := (published_ne_nil_iff hread hrun flow.report_ne_position).mpr ⟨flow, hflow, rfl⟩
  rw [h, filedOver_report, if_neg hgiven, hwritten, owed_eq uninit ms flow.report_ne_position]

/-- The theorem at three messages of three flows. -/
theorem disk_run_iff_three :
    ∃ d, runAll (deliverWith wrapLong fun _ => 0) threeMessages (wired true fun _ => none) = .done d ∧
      ((∀ file, d.archive.disk file =
          filedOver (fun _ => none) (published (fun _ => 0) threeMessages) file) ↔
        Grouped (threeMessages.map Message.flow)) := by
  have hfit : LongsFit (fun _ => 0) (tradesIn threeMessages) := by decide
  obtain ⟨d, hrun⟩ := runs_of_nodup (fun _ => 0) (fun _ => none)
    asRead_threeMessages (by decide)
  rw [← runAll_deliverWith wrapLong_arithmetic asRead_threeMessages hfit] at hrun
  exact ⟨d, hrun, disk_run_iff wrapLong_arithmetic (fun _ => 0) (fun _ => none) threeMessages
    asRead_threeMessages hfit (by decide) d hrun⟩

end Desk

end BondTrading
