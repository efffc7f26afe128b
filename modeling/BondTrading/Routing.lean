/-
  File:      BondTrading/Routing.lean
  Subject:   THE REPORTS WHEN THE FLOWS ARE INTERLEAVED.

  The services of the four flows do not disturb each other (`interleaved_iff`); their reports share
  the stream `f1`, and do.

  * `Archive.onF1Only` -- the archive without the position report, which no service on `f1` touches;
  * `sharedInv_deliver`, `positionFiled_deliver` -- the two invariants of the reports, after messages
    in any order;
  * `reports_alone_iff` -- a report is what its flow alone would have written, for every flow, exactly
    when no flow comes back after another one.
-/
import BondTrading.Messages

namespace BondTrading

open Cxx

/-! ## 1. The archive without the position report -/

namespace Archive

/-- The services on `f1`: their counters, the stream, and the disk without the position report. -/
def onF1Only (a : Archive) : Shared Report String Item :=
  ⟨Function.update a.num .position 1, ⟨a.f1, Function.update a.disk "position.txt" none⟩⟩

theorem onF1Only_fresh (disk : String → Option (List Item)) :
    (fresh disk).onF1Only = Shared.start (Function.update disk "position.txt" none) := by
  refine congrArg₂ Shared.mk (funext fun report => ?_) rfl
  cases report <;> rfl

theorem onF1Only_disk {report : Report} (h : report ≠ .position) (a : Archive) :
    a.onF1Only.out.disk report.file = a.disk report.file :=
  Function.update_of_ne (fun e => h (Report.file_injective e)) _ _

theorem f1Call_report_ne (call : F1Call) : call.report ≠ .position := by
  cases call <;> exact nofun

/-- One message for them is a record over `f1`. -/
theorem onF1Only_f1Message {a : Archive} (h : a.Apart) (call : F1Call) :
    (a.f1Message call).onF1Only =
      a.onF1Only.record Report.file Report.header F1Call.report F1Call.record call := by
  have hnum : a.onF1Only.num call.report = a.num call.report :=
    Function.update_of_ne (f1Call_report_ne call) _ _
  have hstream : (a.f1Message call).f1 = _ := congrArg Output.stream (f1Message_out call a)
  have hdisk : (a.f1Message call).disk = _ := congrArg Output.disk (f1Message_out call a)
  have hmasked := persist_update (f1Call_file_ne call) a.f1 h.f1 a.disk none call.report.header
    call.record (a.num call.report)
  rw [Shared.record, hnum]
  show _ = Shared.mk (Function.update (Function.update a.num .position 1) _ _)
    (persist _ _ _ _ ⟨a.f1, Function.update a.disk "position.txt" none⟩).2
  rw [hmasked, ← hstream, ← hdisk, onF1Only, f1Message_num]
  exact congrArg₂ Shared.mk (Function.update_comm (f1Call_report_ne call) _ _ _) rfl

theorem onF1Only_runF1 {a : Archive} (h : a.Apart) (calls : List F1Call) :
    (a.runF1 calls).onF1Only =
      calls.foldl (Shared.record Report.file Report.header F1Call.report F1Call.record)
        a.onF1Only := by
  induction calls generalizing a with
  | nil => rfl
  | cons call calls ih =>
      rw [List.foldl_cons, ← onF1Only_f1Message h call]
      exact ih (ofPosition_f1Message h call).1

/-- The position service writes nothing of it. -/
theorem onF1Only_positionMessage {a : Archive} (h : a.Apart) (result : ℤ) (data : Position) :
    (a.positionMessage result data).onF1Only = a.onF1Only := by
  have hnum : Function.update (a.positionMessage result data).num .position 1 =
      Function.update a.num .position 1 := by
    rw [positionMessage_num, Function.update_idem]
  have hdisk : Function.update (a.positionMessage result data).disk "position.txt" none =
      Function.update a.disk "position.txt" none := by
    funext file
    by_cases hfile : file = "position.txt"
    · rw [hfile, Function.update_self, Function.update_self]
    · rw [Function.update_of_ne hfile, Function.update_of_ne hfile]
      have htarget : a.f2.target ≠ some file := by
        rcases h.f2 with hf2 | hf2 <;> rw [hf2]
        · exact nofun
        · exact fun e => hfile (Option.some.inj e).symm
      have hapart : Report.position.file ≠ file := Ne.symm hfile
      have hframe := (persist_frame ⟨a.f2, a.disk⟩ hapart htarget Report.position.header
        (positionRecord result data) (a.num .position)).2
      rw [← positionMessage_out] at hframe
      exact hframe
  rw [onF1Only, hnum, hdisk]
  rfl

theorem onF1Only_runPosition {a : Archive} (h : a.Apart) (calls : List (ℤ × Position)) :
    (a.runPosition calls).onF1Only = a.onF1Only := by
  induction calls generalizing a with
  | nil => rfl
  | cons call calls ih =>
      exact (ih (apart_positionMessage h call.1 call.2)).trans
        (onF1Only_positionMessage h call.1 call.2)

/-- The position report so far. -/
def PositionFiled (calls : List (ℤ × Position)) (a : Archive) : Prop :=
  Logged Report.position.file Report.position.header
    (calls.map fun call => positionRecord call.1 call.2) a.hisPosition ⟨a.f2, a.disk⟩

/-- It is a matter of what the position service alone writes. -/
theorem positionFiled_congr {calls : List (ℤ × Position)} {a b : Archive}
    (h : PositionFiled calls a) (hsame : b.ofPosition = a.ofPosition) : PositionFiled calls b := by
  injection hsame with hnum hsame
  injection hsame with hf2 hdisk
  exact ⟨hnum.trans h.counter, fun hne => hf2.trans (h.stream hne),
    fun hne => hdisk.trans (h.disk hne)⟩

theorem positionFiled_positionMessage {calls : List (ℤ × Position)} {a : Archive}
    (h : PositionFiled calls a) (hlen : calls.length + 1 < 2147483648) (call : ℤ × Position) :
    PositionFiled (calls ++ [call]) (a.positionMessage call.1 call.2) := by
  obtain ⟨hlog, -⟩ := logged_persist h (by rwa [List.length_map])
    (positionRecord call.1 call.2)
  have hnum : (a.positionMessage call.1 call.2).num .position = _ :=
    (congrFun (positionMessage_num call.1 call.2 a) .position).trans (Function.update_self _ _ _)
  have hout := positionMessage_out call.1 call.2 a
  rw [PositionFiled, List.map_append]
  show Logged _ _ _ ((a.positionMessage call.1 call.2).num .position) _
  rw [hnum, hout]
  exact hlog

end Archive

/-! ## 2. What messages have the reports written -/

/-- An inquiry comes in received. -/
def Message.Received : Message → Prop
  | .inquiry asked => asked.state = .received
  | _ => True

/-- **A received inquiry that is accepted** is told once. -/
theorem BondInquiryConnector.accept_tells {ι : Type} {inquiry : Inquiry}
    {s s' : BondInquiryService ι} {calls : List (ι × Inquiry)} (hstate : inquiry.state = .received)
    (h : accept inquiry s = .done (s', calls)) : ∃ e, calls = notify s.listenerList e := by
  unfold accept at h
  rw [BondInquiryService.onMessage_received hstate] at h
  dsimp only at h
  split at h
  · cases h
  · rename_i found hfound
    split_ifs at h with hreceived
    injection h with h
    injection h with hs hcalls
    rw [← hcalls, List.nil_append, publish]
    -- the entry that was found is there for the quote to complete
    have hentry := List.mem_of_find?_eq_some hfound
    rcases BondInquiryService.onMessage_cases
      ⟨found.inquiryId, found.product, found.side, found.quantity, found.price, .quoted⟩
      { s with bondInquiry := s.bondInquiry ++ [{ inquiry with price := 100 }] } with
      ⟨hm, -, -⟩ | ⟨i, e, -, -, -, -, he⟩ | ⟨-, hnone, -⟩
    · cases hm
    · exact ⟨_, congrArg Prod.snd he⟩
    · rw [BondInquiryService.completes, if_pos rfl, List.findIdx?_eq_none_iff] at hnone
      exact absurd (hnone found hentry) (by simp)

namespace Desk

section Written

variable (uninit : Nat → ℤ)

/-- What messages have the services on `f1` write. -/
def f1Written (ms : List Message) (d : Desk) : List F1Call :=
  outputs (deliver uninit) (f1Calls uninit) ms d

/-- What they have the position service write. -/
def positionsWritten (ms : List Message) (d : Desk) : List (ℤ × Position) :=
  outputs (deliver uninit) (positionCalls uninit) ms d

variable {uninit} {ms : List Message} {s d d' : Desk}

theorem steady_run (hs : Steady s) (hrun : runAll (deliver uninit) ms s = .done d) : Steady d :=
  (parted_deliver uninit).keeps_run hs hrun

/-- A message that goes through makes one record on `f1`. -/
theorem f1Calls_one (h : Steady d) {m : Message} (hm : m.Received)
    (hd : deliver uninit m d = .done d') : ∃ call, f1Calls uninit m d = [call] := by
  cases m with
  | trade trade => exact ⟨_, rfl⟩
  | price price => exact ⟨_, rfl⟩
  | book book =>
      rw [deliver, onOrderBook_any h.wired] at hd
      split at hd
      · cases hd
      · rename_i algo execution calls hmessage
        obtain ⟨level, order, -, -, -, -, hcalls⟩ :=
          BondAlgoExecutionService.onMessage_ok hmessage
        simp only [f1Calls, hmessage, hcalls, h.wired.execution, if_true]
        exact ⟨_, rfl⟩
  | inquiry inquiry =>
      rw [deliver, acceptInquiry_any] at hd
      split at hd
      · rename_i inquirySrv calls haccept
        obtain ⟨e, hcalls⟩ := BondInquiryConnector.accept_tells hm haccept
        simp only [f1Calls, haccept, hcalls, h.wired.inquiry, if_true]
        exact ⟨_, rfl⟩
      · cases hd

/-- The reports on `f1` get one record for every message, in the order of the messages. -/
theorem reports_f1Written (hs : Steady s) (hreceived : ∀ m ∈ ms, m.Received)
    (hrun : runAll (deliver uninit) ms s = .done d) :
    (f1Written uninit ms s).map F1Call.report = (ms.map Message.flow).map Flow.report := by
  induction ms generalizing s with
  | nil => rfl
  | cons m ms ih =>
      obtain ⟨s₁, hm, hms⟩ := runAll_cons_done hrun
      obtain ⟨call, hcall⟩ := f1Calls_one hs (hreceived m List.mem_cons_self) hm
      have hreport := report_of_mem_f1Calls uninit m s call (hcall ▸ List.mem_singleton_self _)
      rw [f1Written, outputs_cons_done hm, hcall, List.map_append, List.map_singleton, hreport,
        List.map_cons, List.map_cons]
      exact congrArg _ (ih (steady_deliver hs hm)
        (fun m' hm' => hreceived m' (List.mem_cons_of_mem _ hm')) hms)

/-- **The reports on `f1`** are written as if nothing else were. -/
theorem onF1Only_run (hs : Steady s) (hrun : runAll (deliver uninit) ms s = .done d) :
    d.archive.onF1Only = (f1Written uninit ms s).foldl
      (Shared.record Report.file Report.header F1Call.report F1Call.record) s.archive.onF1Only := by
  refine runAll_done_invariant (I := fun pre d => d.archive.onF1Only = (f1Written uninit pre s).foldl
    (Shared.record Report.file Report.header F1Call.report F1Call.record) s.archive.onF1Only)
    hrun rfl ?_
  intro pre m s₁ s₂ hpre ih hm
  have hs₁ := steady_run hs hpre
  obtain ⟨happart, -⟩ := Archive.ofPosition_runF1 hs₁.apart (f1Calls uninit m s₁)
  have hmore : f1Written uninit (pre ++ [m]) s = f1Written uninit pre s ++ f1Calls uninit m s₁ :=
    outputs_concat hpre m
  rw [(deliver_done hs₁.wired hm).2, Archive.onF1Only_runPosition happart,
    Archive.onF1Only_runF1 hs₁.apart, ih, hmore, List.foldl_append]

/-- **The invariant of the reports on `f1`**, after messages in any order. -/
theorem sharedInv_deliver {disk : String → Option (List Item)} (hreceived : ∀ m ∈ ms, m.Received)
    (hlen : ms.length < 2147483648)
    (hrun : runAll (deliver uninit) ms (wired true disk) = .done d) :
    SharedInv Report.file Report.header F1Call.report F1Call.record
      (Function.update disk "position.txt" none) (f1Written uninit ms (wired true disk))
      d.archive.onF1Only := by
  have hs := steady_wired disk
  have hlength := congrArg List.length (reports_f1Written hs hreceived hrun)
  rw [List.length_map, List.length_map, List.length_map] at hlength
  have hstart : (wired true disk).archive.onF1Only =
      Shared.start (Function.update disk "position.txt" none) := Archive.onF1Only_fresh disk
  rw [onF1Only_run hs hrun, hstart]
  exact sharedInv_run Report.file_injective f1Call_record_ne_nil (hlength ▸ hlen)

/-- **The position report**, after messages in any order; without a position it is left alone. -/
theorem positionFiled_deliver {disk : String → Option (List Item)}
    (hlen : ms.length < 2147483648)
    (hrun : runAll (deliver uninit) ms (wired true disk) = .done d) :
    Archive.PositionFiled (positionsWritten uninit ms (wired true disk)) d.archive ∧
      (positionsWritten uninit ms (wired true disk)).length ≤ ms.length ∧
      (positionsWritten uninit ms (wired true disk) = [] →
        d.archive.disk "position.txt" = disk "position.txt") := by
  have hs := steady_wired disk
  refine runAll_done_invariant (I := fun pre d => pre.length < 2147483648 →
    Archive.PositionFiled (positionsWritten uninit pre (wired true disk)) d.archive ∧
      (positionsWritten uninit pre (wired true disk)).length ≤ pre.length ∧
      (positionsWritten uninit pre (wired true disk) = [] →
        d.archive.disk "position.txt" = disk "position.txt")) hrun ?_ ?_ hlen
  · intro _
    have hnone : positionsWritten uninit [] (wired true disk) = [] := rfl
    rw [hnone]
    exact ⟨⟨rfl, fun h => absurd rfl h, fun h => absurd rfl h⟩, Nat.le_refl _, fun _ => rfl⟩
  · intro pre m s₁ s₂ hpre ih hm hlen
    rw [List.length_append, List.length_singleton] at hlen
    obtain ⟨hfiled, hle, hkept⟩ := ih (by omega)
    have hs₁ := steady_run hs hpre
    obtain ⟨happart, hsame⟩ := Archive.ofPosition_runF1 hs₁.apart (f1Calls uninit m s₁)
    have hfiled' := Archive.positionFiled_congr hfiled hsame
    have hmore : positionsWritten uninit (pre ++ [m]) (wired true disk) =
        positionsWritten uninit pre (wired true disk) ++ positionCalls uninit m s₁ :=
      outputs_concat hpre m
    rw [(deliver_done hs₁.wired hm).2, hmore, List.length_append, List.length_append,
      List.length_singleton]
    by_cases ht : m.flow = .trades
    · obtain ⟨trade, rfl⟩ : ∃ trade, m = .trade trade := by
        cases m <;> first | exact ⟨_, rfl⟩ | cases ht
      exact ⟨Archive.positionFiled_positionMessage hfiled' (by omega) _,
        Nat.add_le_add_right hle 1, fun h => absurd h (by simp [positionCalls])⟩
    · rw [positionCalls_other uninit ht, List.append_nil]
      refine ⟨hfiled', Nat.le_add_right_of_le hle, fun h => ?_⟩
      exact (congrArg (fun own => own.2.2) hsame).trans (hkept h)

end Written

end Desk

/-! ## 3. The flows and their reports -/

/-- The flow a message for a service on `f1` belongs to. -/
def F1Call.flow : F1Call → Flow
  | .risk _ => .trades
  | .execution _ => .books
  | .streaming _ => .prices
  | .inquiry _ => .inquiries

theorem F1Call.report_flow (call : F1Call) : call.flow.report = call.report := by
  cases call <;> rfl

namespace Desk

section Alone

variable {uninit : Nat → ℤ} {disk : String → Option (List Item)} {ms : List Message} {d : Desk}
  (hreceived : ∀ m ∈ ms, m.Received) (hlen : ms.length < 2147483648)
  (hrun : runAll (deliver uninit) ms (wired true disk) = .done d)

include hrun

/-- What a flow has written is what it has written alone. -/
theorem f1Written_flowOf (flow : Flow) :
    f1Written uninit (flowOf flow ms) (wired true disk) =
      (f1Written uninit ms (wired true disk)).filter fun call => call.report = flow.report := by
  have hs := steady_wired disk
  have hpurge := (parted_deliver uninit).outputs_purge (f1Calls uninit) F1Call.flow
    (fun _ _ hpart => (calls_congr uninit (congrArg Prod.fst hpart)).1)
    (fun m s call hcall => Flow.report_injective
      (call.report_flow.trans (report_of_mem_f1Calls uninit m s call hcall)))
    flow hs hs rfl hrun
  refine hpurge.symm.trans (List.filter_congr fun call _ => ?_)
  rw [← call.report_flow, decide_eq_decide]
  exact Flow.report_injective.eq_iff.symm

include hreceived hlen

/-- What the file of a flow's report should hold, in terms of what has been written on `f1`. -/
theorem disk_report_iff :
    (∀ flow ∈ ms.map Message.flow, d.archive.disk flow.report.file = some (owed Report.header
        F1Call.report F1Call.record flow.report (f1Written uninit ms (wired true disk)))) ↔
      Grouped (ms.map Message.flow) := by
  have hinv := sharedInv_deliver hreceived hlen hrun
  have hreports := reports_f1Written (steady_wired disk) hreceived hrun
  have hgrouped := hinv.grouped_iff
  rw [hreports, grouped_map Flow.report_injective] at hgrouped
  rw [← hgrouped]
  simp only [List.forall_mem_map]
  refine forall₂_congr fun m _ => ?_
  rw [Archive.onF1Only_disk m.flow.report_ne_position]

/-- The same of the run of one flow alone: it is never disturbed. -/
theorem disk_report_alone {flow : Flow} (hflow : flow ∈ ms.map Message.flow) :
    ∃ alone, runAll (deliver uninit) (flowOf flow ms) (wired true disk) = .done alone ∧
      alone.archive.disk flow.report.file = some (owed Report.header F1Call.report F1Call.record
        flow.report (f1Written uninit ms (wired true disk))) := by
  have hs := steady_wired disk
  obtain ⟨alone, halone, -⟩ := (parted_deliver uninit).purge flow hs hs rfl hrun
  have hmem : ∀ m ∈ flowOf flow ms, m ∈ ms ∧ m.flow = flow := fun m hm =>
    ⟨List.mem_of_mem_filter hm, of_decide_eq_true (List.mem_filter.mp hm).2⟩
  have hshort : (flowOf flow ms).length < 2147483648 :=
    Nat.lt_of_le_of_lt (List.length_filter_le _ _) hlen
  have hright := (disk_report_iff (fun m hm => hreceived m (hmem m hm).1) hshort halone).mpr
    (grouped_const fun t ht => by
      obtain ⟨m, hm, rfl⟩ := List.mem_map.mp ht
      exact (hmem m hm).2)
  obtain ⟨m, hm, rfl⟩ := List.mem_map.mp hflow
  refine ⟨alone, halone, ?_⟩
  rw [hright m.flow (List.mem_map_of_mem (List.mem_filter.mpr ⟨hm, decide_eq_true rfl⟩)),
    f1Written_flowOf hrun]
  unfold owed
  rw [recordsOf_filter]

end Alone

/-- **The reports of interleaved flows**: after messages in any order, the inquiries received, every
    flow's report on `f1` is what the flow alone would have written exactly when no flow comes back
    after another one. -/
theorem reports_alone_iff (uninit : Nat → ℤ) (disk : String → Option (List Item))
    (ms : List Message) (hreceived : ∀ m ∈ ms, m.Received) (hlen : ms.length < 2147483648) (d : Desk)
    (hrun : runAll (deliver uninit) ms (wired true disk) = .done d) :
    (∀ flow ∈ ms.map Message.flow, ∃ alone,
        runAll (deliver uninit) (flowOf flow ms) (wired true disk) = .done alone ∧
        d.archive.disk flow.report.file = alone.archive.disk flow.report.file) ↔
      Grouped (ms.map Message.flow) := by
  rw [← disk_report_iff hreceived hlen hrun]
  refine forall₂_congr fun flow hflow => ?_
  obtain ⟨alone, halone, hdisk⟩ := disk_report_alone hreceived hlen hrun hflow
  rw [← hdisk]
  constructor
  · intro h
    obtain ⟨alone', halone', hsame⟩ := h
    rw [hsame, Outcome.done.inj (halone'.symm.trans halone)]
  · exact fun h => ⟨alone, halone, h⟩

/-- A trade, a price and a second trade. -/
def tradeAgain : List Message :=
  [.trade purchase, .price ⟨.ofCusip "912828M72", 99, 1 / 128⟩, .trade purchase]

/-- The theorem at these messages. -/
theorem reports_alone_iff_tradeAgain :
    (∀ flow ∈ tradeAgain.map Message.flow, ∃ alone,
        runAll (deliver fun _ => 0) (flowOf flow tradeAgain) (wired true fun _ => none) =
          .done alone ∧
        (runTrades (fun _ => 0) [purchase] (onPrice ⟨.ofCusip "912828M72", 99, 1 / 128⟩
          (runTrades (fun _ => 0) [purchase] (wired true fun _ => none)))).archive.disk
            flow.report.file = alone.archive.disk flow.report.file) ↔
      Grouped (tradeAgain.map Message.flow) :=
  reports_alone_iff (fun _ => 0) (fun _ => none) tradeAgain
    (fun m hm => by
      rcases List.mem_cons.mp hm with rfl | hm
      · trivial
      · rcases List.mem_pair.mp hm with rfl | rfl <;> trivial)
    (by decide) _ rfl

end Desk

end BondTrading
