/-
  File:      BondTrading/Uninitialised.lean
  Subject:   HOW FAR THE UNINITIALISED LOCAL REACHES: `GetAggregatePosition` adds the quantities to
             whatever its `result` holds. Two runs of `main` that differ in these values only are
             compared.

  * `publish_position_iff` -- when a row of position.txt is the same; `riskEntries_congr` -- what the
    entries of the risk service depend on;
  * `main_uninit_iff` -- the ending, and all files but position.txt and risk.txt, are the same in any
    case; position.txt exactly when the values read for its rows are, and risk.txt if those are that
    the risk service reads.
-/
import BondTrading.AnyInput

namespace BondTrading

open Cxx

/-! ## 1. The position report -/

theorem publish_position_iff (result result' : ℤ) (data : Position) :
    BondHistoricalPositionDataConnector.publish result data =
        BondHistoricalPositionDataConnector.publish result' data ↔ result = result' := by
  refine ⟨fun h => ?_, fun h => h ▸ rfl⟩
  have hfield : some (Item.long 20 (data.getAggregatePosition result)) =
      some (Item.long 20 (data.getAggregatePosition result')) := congrArg (fun items => items[4]?) h
  simp only [Item.long, Position.getAggregatePosition_eq, Option.some.injEq, Item.field.injEq,
    Value.long.injEq, true_and] at hfield
  exact add_left_cancel hfield

/-! ## 2. The risk report -/

section Entries

variable {uninit uninit' : Nat → ℤ} {trades : List Trade}

/-- The entries are a matter of what the locals of the risk service hold, one for each trade. -/
theorem riskEntries_congr (h : ∀ n < trades.length, uninit (2 * n) = uninit' (2 * n)) :
    riskEntries uninit trades = riskEntries uninit' trades := by
  have hleft : ∀ cusip, Desk.leftover uninit true trades cusip =
      Desk.leftover uninit' true trades cusip := by
    intro cusip
    unfold Desk.leftover
    refine congrArg List.sum (List.map_congr_left fun entry hentry => ?_)
    have hmem := List.snd_lt_of_mem_zipIdx (List.mem_filter.mp hentry).1
    exact h entry.2 (by omega)
  unfold riskEntries
  simp only [hleft]

end Entries

/-! ## 3. The files of main -/

theorem contentOf_same_iff (report : Report) (published published' : List (List Item)) :
    contentOf report published = contentOf report published' ↔
      numbered (published.map HistoricalDataService.record) =
        numbered (published'.map HistoricalDataService.record) :=
  List.append_right_inj _

/-- Reports with as many records are the same on the disk exactly when their contents are. -/
theorem filedOver_same_iff (disk : String → Option (List Item))
    {published published' : Report → List (List Item)} {report : Report}
    (hlen : (published report).length = (published' report).length) :
    filedOver disk published report.file = filedOver disk published' report.file ↔
      contentOf report (published report) = contentOf report (published' report) := by
  rw [filedOver_report, filedOver_report]
  by_cases hnone : published report = []
  · have hnone' : published' report = [] := by
      rwa [← List.length_eq_zero_iff, ← hlen, List.length_eq_zero_iff]
    rw [if_pos hnone, if_pos hnone', hnone, hnone']
    exact iff_of_true rfl rfl
  · have hsome' : published' report ≠ [] := by
      rwa [Ne, ← List.length_eq_zero_iff, ← hlen, List.length_eq_zero_iff]
    rw [if_neg hnone, if_neg hsome', Option.some.injEq]

section Contents

variable (uninit uninit' : Nat → ℤ) (ms : List Message)

theorem position_same_iff :
    contentOf .position (published uninit ms .position) =
        contentOf .position (published uninit' ms .position) ↔
      ∀ n < (tradesIn ms).length, uninit (2 * n + 1) = uninit' (2 * n + 1) := by
  have hlen : ∀ (pre : List Trade) (trade : Trade) (k : ℤ),
      (HistoricalDataService.record (BondHistoricalPositionDataConnector.publish
        (uninit (2 * pre.length + 1)) (.ofTrade trade)) k).length =
      (HistoricalDataService.record (BondHistoricalPositionDataConnector.publish
        (uninit' (2 * pre.length + 1)) (.ofTrade trade)) k).length := fun _ _ _ => rfl
  rw [contentOf_same_iff, published, published, map_along, map_along]
  refine (numbered_along_iff hlen (tradesIn ms)).trans ((forall_along_iff _).trans ?_)
  refine forall₂_congr fun n hn => ?_
  rw [List.length_take, Nat.min_eq_left hn.le, HistoricalDataService.record,
    HistoricalDataService.record, List.cons_inj_right, publish_position_iff]

theorem published_risk_congr
    (h : ∀ n < (tradesIn ms).length, uninit (2 * n) = uninit' (2 * n)) :
    published uninit ms .risk = published uninit' ms .risk := by
  refine along_congr fun pre trade hpre => ?_
  have hlength := hpre.length_le
  rw [riskEntries_congr fun n hn => h n (hn.trans_le hlength)]

/-- What is published for the other reports does not depend on the values at all. -/
theorem published_same {report : Report} (hposition : report ≠ .position) (hrisk : report ≠ .risk) :
    published uninit ms report = published uninit' ms report := by
  cases report with
  | position => exact absurd rfl hposition
  | risk => exact absurd rfl hrisk
  | executions | streaming | allinquires => rfl

theorem length_published (report : Report) :
    (published uninit ms report).length = (published uninit' ms report).length := by
  cases report with
  | position | risk => rw [published, published, length_along, length_along]
  | executions | streaming | allinquires => rfl

end Contents

namespace Desk

/-- **How far the uninitialised values reach**: two runs of `main` on the same files, over the same
    disk, that differ in these values alone end the same way, and leave every file but position.txt
    and risk.txt the same, as long as no sum overflows. position.txt is the same exactly when the values
    are that the report reads, one for each trade; and risk.txt is the same if those are that the risk
    service reads. -/
theorem main_uninit_iff {long : ℤ → ℤ} (hlong : LongArithmetic long) (uninit uninit' : Nat → ℤ)
    (files : String → Option String) (disk : String → Option (List Item))
    (hlen : (taken files).length < 2147483648) (hfit : LongsFit uninit (tradesIn (taken files)))
    (hfit' : LongsFit uninit' (tradesIn (taken files))) :
    (mainWith long uninit files disk).ending = (mainWith long uninit' files disk).ending ∧
      (∀ file, file ≠ "position.txt" → file ≠ "risk.txt" →
        (mainWith long uninit files disk).state.archive.disk file =
          (mainWith long uninit' files disk).state.archive.disk file) ∧
      ((mainWith long uninit files disk).state.archive.disk "position.txt" =
          (mainWith long uninit' files disk).state.archive.disk "position.txt" ↔
        ∀ n < (tradesIn (taken files)).length, uninit (2 * n + 1) = uninit' (2 * n + 1)) ∧
      ((∀ n < (tradesIn (taken files)).length, uninit (2 * n) = uninit' (2 * n)) →
        (mainWith long uninit files disk).state.archive.disk "risk.txt" =
          (mainWith long uninit' files disk).state.archive.disk "risk.txt") := by
  simp only [mainWith_exact uninit disk hlong hfit, mainWith_exact uninit' disk hlong hfit',
    disk_main uninit disk hlen, disk_main uninit' disk hlen]
  have hsame : ∀ {file}, (∀ report : Report, report.file = file →
      published uninit (taken files) report = published uninit' (taken files) report) →
      filedOver disk (published uninit (taken files)) file =
        filedOver disk (published uninit' (taken files)) file := by
    intro file hreports
    by_cases hfile : ∃ report : Report, report.file = file
    · obtain ⟨report, rfl⟩ := hfile
      rw [filedOver_report, filedOver_report, hreports report rfl]
    · rw [filedOver_other _ _ fun report e => hfile ⟨report, e⟩,
        filedOver_other _ _ fun report e => hfile ⟨report, e⟩]
  refine ⟨(ending_main _ _ _).trans (ending_main _ _ _).symm, fun file hposition hrisk => ?_, ?_,
    fun hvalues => ?_⟩
  · refine hsame fun report hfile => ?_
    exact published_same uninit uninit' (taken files) (fun e => hposition (by rw [← hfile, e]; rfl))
      fun e => hrisk (by rw [← hfile, e]; rfl)
  · rw [← position_same_iff]
    exact filedOver_same_iff disk (length_published uninit uninit' (taken files) .position)
  · refine hsame fun report hfile => ?_
    rw [Report.file_injective (hfile.trans (show "risk.txt" = Report.risk.file from rfl))]
    exact published_risk_congr uninit uninit' (taken files) hvalues

theorem tradesIn_brokenFiles : (tradesIn (taken brokenFiles)).length = 1 := by
  decide +kernel

/-- The theorem at one trade: values that differ in the second place get into position.txt, and not
    into risk.txt. -/
theorem main_uninit_iff_broken :
    (mainWith wrapLong (fun _ => 0) brokenFiles fun _ => none).state.archive.disk "position.txt" ≠
        (mainWith wrapLong (fun n => n) brokenFiles fun _ => none).state.archive.disk
          "position.txt" ∧
      (mainWith wrapLong (fun _ => 0) brokenFiles fun _ => none).state.archive.disk "risk.txt" =
        (mainWith wrapLong (fun n => n) brokenFiles fun _ => none).state.archive.disk "risk.txt" := by
  have hlen : (taken brokenFiles).length < 2147483648 := by
    rw [script_brokenFiles.1]
    decide
  obtain ⟨-, -, hposition, hrisk⟩ :=
    main_uninit_iff wrapLong_arithmetic (fun _ => 0) (fun n => n) brokenFiles (fun _ => none) hlen
      (by decide +kernel) (by decide +kernel)
  rw [tradesIn_brokenFiles] at hposition
  refine ⟨fun h => absurd (hposition.mp h 0 (by decide)) (by decide), hrisk fun n hn => ?_⟩
  rw [tradesIn_brokenFiles] at hn
  obtain rfl := Nat.lt_one_iff.mp hn
  rfl

end Desk

end BondTrading
