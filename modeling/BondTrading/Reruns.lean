/-
  File:      BondTrading/Reruns.lean
  Subject:   MAIN RUN AGAIN: over its own output, and on longer input.

  * `main_rerun` -- a second run on the same input ends as the first one did, and changes nothing;
  * `Report.input`, `main_report_mono` -- a report is a matter of the lines of its own input file, and
    more lines there only add to it.
-/
import BondTrading.AnyInput

namespace BondTrading

open Cxx

/-! ## 1. The same input -/

/-- Filing the same reports a second time changes nothing. -/
theorem filedOver_filedOver (disk : String → Option (List Item))
    (published : Report → List (List Item)) (file : String) :
    filedOver (filedOver disk published) published file = filedOver disk published file := by
  by_cases hfile : ∃ report : Report, report.file = file
  · obtain ⟨report, rfl⟩ := hfile
    rw [filedOver_report, filedOver_report]
    split_ifs <;> rfl
  · exact filedOver_other _ _ fun report e => hfile ⟨report, e⟩

namespace Desk

/-- **`main` run a second time** on the same input, over what it has left: it ends the same way, and
    every file is left as it was. -/
theorem main_rerun (uninit : Nat → ℤ) (files : String → Option String)
    (disk : String → Option (List Item)) (hlen : (taken files).length < 2147483648) :
    (main uninit files disk).ending ≠ some .undefined →
      (main uninit files (main uninit files disk).state.archive.disk).ending =
          (main uninit files disk).ending ∧
        ∀ file, (main uninit files (main uninit files disk).state.archive.disk).state.archive.disk
          file = (main uninit files disk).state.archive.disk file := by
  intro _
  refine ⟨(ending_main _ _ _).trans (ending_main _ _ _).symm, fun file => ?_⟩
  have hdisk : (main uninit files disk).state.archive.disk =
      filedOver disk (published uninit (taken files)) := funext (disk_main uninit disk hlen)
  rw [disk_main uninit _ hlen, hdisk]
  exact filedOver_filedOver disk _ file

/-- The theorem at the files with a broken line. -/
theorem main_rerun_broken :
    (main (fun _ => 0) brokenFiles
        (main (fun _ => 0) brokenFiles fun _ => none).state.archive.disk).ending =
        (main (fun _ => 0) brokenFiles fun _ => none).ending ∧
      ∀ file, (main (fun _ => 0) brokenFiles
        (main (fun _ => 0) brokenFiles fun _ => none).state.archive.disk).state.archive.disk file =
          (main (fun _ => 0) brokenFiles fun _ => none).state.archive.disk file := by
  obtain ⟨hlength, hall, hscript⟩ := script_brokenFiles
  refine main_rerun (fun _ => 0) brokenFiles (fun _ => none) ?_ ?_
  · rw [hlength]
    decide
  · rw [ending_main, if_pos hall, hscript]
    decide

end Desk

/-! ## 2. More input -/

/-- The input file a report is about. -/
def Report.input : Report → String
  | .position | .risk => "trades.txt"
  | .executions => "marketdata.txt"
  | .streaming => "prices.txt"
  | .allinquires => "inquiries.txt"

theorem contentOf_mono (report : Report) {published published' : List (List Item)}
    (h : published <+: published') : contentOf report published <+: contentOf report published' :=
  (List.prefix_append_right_inj _).mpr (numbered_mono (h.map _))

namespace Desk

section Mono

variable (uninit : Nat → ℤ) {files files' : String → Option String}

/-- What is published for a report is a matter of its own input, and grows with it. -/
theorem published_mono (hending : (script files).ending = none)
    (hending' : (script files').ending = none) {report : Report}
    (hlines : Script.linesOf (files report.input) <+: Script.linesOf (files' report.input)) :
    published uninit (script files).messages report <+:
      published uninit (script files').messages report := by
  obtain ⟨hbooks, htrades, hprices, hinquiries⟩ := kinds_script hending
  obtain ⟨hbooks', htrades', hprices', hinquiries'⟩ := kinds_script hending'
  cases report with
  | position =>
      rw [published, published, htrades, htrades']
      exact along_mono _ _ (Script.ofFile_mono rfl hlines)
  | risk =>
      rw [published, published, htrades, htrades']
      exact along_mono _ _ (Script.ofFile_mono rfl hlines)
  | executions =>
      rw [published, published, hbooks, hbooks']
      exact (along_mono _ _ (Script.ofFile_mono rfl hlines)).map _
  | streaming =>
      rw [published, published, hprices, hprices']
      exact (Script.ofFile_mono rfl hlines).map _
  | allinquires =>
      rw [published, published, hinquiries, hinquiries']
      exact (Script.ofFile_mono rfl hlines).map _

variable {uninit} in
/-- A report whose input has a line is given something. -/
theorem published_ne_nil {disk : String → Option (List Item)} {d : Desk}
    (hrun : runAll (deliver uninit) (script files).messages (wired true disk) = .done d)
    (hending : (script files).ending = none) {report : Report}
    (hsome : Script.linesOf (files report.input) ≠ []) :
    published uninit (script files).messages report ≠ [] := by
  obtain ⟨hbooks, htrades, hprices, hinquiries⟩ := kinds_script hending
  obtain ⟨hbooksEnd, htradesEnd, hpricesEnd, hinquiriesEnd⟩ := (ending_script files).mp hending
  cases report with
  | position =>
      obtain ⟨trade, rest, he⟩ :=
        List.exists_cons_of_ne_nil (Script.messages_ofFile_ne_nil htradesEnd hsome)
      rw [published, htrades, tradesScript, he]
      exact List.cons_ne_nil _ _
  | risk =>
      obtain ⟨trade, rest, he⟩ :=
        List.exists_cons_of_ne_nil (Script.messages_ofFile_ne_nil htradesEnd hsome)
      rw [published, htrades, tradesScript, he]
      exact List.cons_ne_nil _ _
  | executions =>
      -- the book's order is there because the run has got through the book
      obtain ⟨book, rest, he⟩ :=
        List.exists_cons_of_ne_nil (Script.messages_ofFile_ne_nil hbooksEnd hsome)
      have hbook : Report.executions ≠ .position := by decide
      refine (published_ne_nil_iff (asRead_script files) hrun hbook).mpr ⟨.books, ?_, rfl⟩
      rw [messages_script hending, booksScript, he]
      exact List.mem_cons_self
  | streaming =>
      rw [published, hprices]
      exact mt List.map_eq_nil_iff.mp (Script.messages_ofFile_ne_nil hpricesEnd hsome)
  | allinquires =>
      rw [published, hinquiries]
      exact mt List.map_eq_nil_iff.mp (Script.messages_ofFile_ne_nil hinquiriesEnd hsome)

variable {uninit} in
/-- What a run of `main` that ends normally leaves of a report whose input has a line. -/
theorem main_report {disk : String → Option (List Item)} {d : Desk}
    (hdone : main uninit files disk = .done d) (hlen : (script files).messages.length < 2147483648)
    {report : Report} (hsome : Script.linesOf (files report.input) ≠ []) :
    d.archive.disk report.file =
      some (contentOf report (published uninit (script files).messages report)) := by
  obtain ⟨hending, hall⟩ := (main_done_iff uninit files disk).mp ⟨d, hdone⟩
  obtain ⟨d₁, -, hrun, -⟩ := state_main uninit files disk
  have hdisk := disk_main uninit disk (hall ▸ hlen) report.file
  rw [hall] at hrun hdisk
  rw [filedOver_report, if_neg (published_ne_nil hrun hending hsome), hdone] at hdisk
  exact hdisk

end Mono

/-- **A report is a matter of its own input file**: let two runs of `main` end normally, on any other
    files and over any disks. If the lines of the report's input in the first run begin those in the
    second, the report of the first run begins that of the second; if they are the same, so are the
    reports. -/
theorem main_report_mono (uninit : Nat → ℤ) (files files' : String → Option String)
    (disk disk' : String → Option (List Item)) (d d' : Desk)
    (hdone : main uninit files disk = .done d) (hdone' : main uninit files' disk' = .done d')
    (hlen : (script files).messages.length < 2147483648)
    (hlen' : (script files').messages.length < 2147483648) (report : Report)
    (hsome : Script.linesOf (files report.input) ≠ [])
    (hlines : Script.linesOf (files report.input) <+: Script.linesOf (files' report.input)) :
    ∃ content content', d.archive.disk report.file = some content ∧
      d'.archive.disk report.file = some content' ∧ content <+: content' ∧
      (Script.linesOf (files report.input) = Script.linesOf (files' report.input) →
        content = content') := by
  obtain ⟨hending, -⟩ := (main_done_iff uninit files disk).mp ⟨d, hdone⟩
  obtain ⟨hending', -⟩ := (main_done_iff uninit files' disk').mp ⟨d', hdone'⟩
  have hsome' : Script.linesOf (files' report.input) ≠ [] := fun hnil =>
    hsome (List.prefix_nil.mp (hnil ▸ hlines))
  refine ⟨_, _, main_report hdone hlen hsome, main_report hdone' hlen' hsome',
    contentOf_mono report (published_mono uninit hending hending' hlines), fun hsame => ?_⟩
  have hbegins := published_mono uninit hending hending' hlines
  have hlines' : Script.linesOf (files' report.input) <+: Script.linesOf (files report.input) := by
    rw [hsame]
  have hbegins' := published_mono uninit hending' hending hlines'
  rw [hbegins.eq_of_length_le hbegins'.length_le]

/-- A file of trades, and no prices; the books and the inquiries are empty. -/
def tradesOnly (trades : String) : String → Option String
  | "marketdata.txt" => some ""
  | "trades.txt" => some trades
  | "inquiries.txt" => some ""
  | _ => none

def oneTrade : String := "\n912828M72,T1,TRSY1,5,BUY\n"

def twoTrades : String := "\n912828M72,T1,TRSY1,5,BUY\n912828M72,T2,TRSY1,3,SELL\n"

theorem main_tradesOnly :
    (∃ d, main (fun _ => 0) (tradesOnly oneTrade) (fun _ => none) = .done d) ∧
      ∃ d, main (fun _ => 0) (tradesOnly twoTrades) (fun _ => none) = .done d := by
  rw [main_done_iff, main_done_iff]
  decide +kernel

/-- The theorem at these files. -/
theorem main_report_mono_two :
    ∃ d d', main (fun _ => 0) (tradesOnly oneTrade) (fun _ => none) = .done d ∧
      main (fun _ => 0) (tradesOnly twoTrades) (fun _ => none) = .done d' ∧
      ∃ content content', d.archive.disk "position.txt" = some content ∧
        d'.archive.disk "position.txt" = some content' ∧ content <+: content' ∧
        (Script.linesOf (some oneTrade) = Script.linesOf (some twoTrades) →
          content = content') := by
  obtain ⟨⟨d, hd⟩, d', hd'⟩ := main_tradesOnly
  exact ⟨d, d', hd, hd', main_report_mono (fun _ => 0) (tradesOnly oneTrade) (tradesOnly twoTrades)
    (fun _ => none) (fun _ => none) d d' hd hd' (by decide +kernel) (by decide +kernel) .position
    (by decide +kernel) (by decide +kernel)⟩

end Desk

end BondTrading
