/-
  File:      BondTrading/AnyInput.lean
  Subject:   MAIN ON ANY INPUT FILES, whole or not: what it takes from them, and how it ends.

  * `decode_reads`, `Readable` -- what each of the four decoders makes of a line, and of which lines
    it makes anything;
  * `script` -- the messages the four files hold, up to the first line that does not decode;
    `main_eq_script` -- `main` is the run of that script;
  * `accepted` -- the messages up to the first inquiry with an id that was there already;
  * `mainWith_exact` -- without an overflow, `main` over any arithmetic of `long`s is that in whole
    numbers.
-/
import BondTrading.Library.Scripts
import BondTrading.PriceFiles
import BondTrading.EndToEnd
import BondTrading.Reports

namespace BondTrading

open Cxx

/-! ## 1. Lines that decode -/

namespace BondMarketDataConnector

/-- What the reader has found in a record it makes a book of. -/
theorem decode_reads {record : List String} {book : OrderBook} (h : decode record = .ok book) :
    ∃ cusip price midPrice, record[0]? = some cusip ∧ record[1]? = some price ∧
      decimalBondPrice price = .ok midPrice ∧ book = bookAround (Bond.ofCusip cusip) midPrice := by
  obtain ⟨cusip, hc, h⟩ := bind_ok h
  obtain ⟨price, hp, h⟩ := bind_ok h
  obtain ⟨midPrice, hm, h⟩ := bind_ok h
  exact ⟨cusip, price, midPrice, fieldAt_ok hc, fieldAt_ok hp, hm, (Except.ok.inj h).symm⟩

/-- A line with a price that does not throw. -/
def Readable (line : List Char) : Prop :=
  ∃ price, (fields line)[1]? = some price ∧ ¬ PriceThrows price

theorem decode_iff (line : List Char) :
    (∃ book, decode (fields line) = .ok book) ↔ Readable line := by
  constructor
  · intro h
    obtain ⟨book, h⟩ := h
    obtain ⟨cusip, price, midPrice, -, hp, hm, -⟩ := decode_reads h
    exact ⟨price, hp, (decimalBondPrice_ok_iff price).mp ⟨midPrice, hm⟩⟩
  · intro h
    obtain ⟨price, hp, hno⟩ := h
    obtain ⟨midPrice, hm⟩ := (decimalBondPrice_ok_iff price).mpr hno
    have hlen := (List.getElem?_eq_some_iff.mp hp).1
    have hc : (fields line)[0]? = some (fields line)[0] := List.getElem?_eq_getElem (by omega)
    obtain ⟨book, hbook, -⟩ := decode_ok hc hp hm
    exact ⟨book, hbook⟩

/-- **Reading a file is the run of what it holds.** -/
theorem readFile_eq_script {σ : Type} (act : OrderBook → σ → Outcome σ) (file : Option String)
    (s : σ) :
    readFile act file s = (Script.ofFile decode (.stop .exit) file).run act s := by
  cases file with
  | none => rfl
  | some content => exact Script.readLines_eq_script act (dataLines content) s

end BondMarketDataConnector

namespace BondTradeBookingConnector

/-- What the reader has found in a record it makes a trade of. -/
theorem decode_reads {record : List String} {trade : Trade} (h : decode record = .ok trade) :
    ∃ cusip quantity side, record[0]? = some cusip ∧ record[3]? = some quantity ∧
      record[4]? = some side ∧ stol quantity.toList = .ok trade.quantity ∧
      trade.product = Bond.ofCusip cusip := by
  obtain ⟨cusip, hc, h⟩ := bind_ok h
  obtain ⟨id, -, h⟩ := bind_ok h
  obtain ⟨book, -, h⟩ := bind_ok h
  obtain ⟨quantity, hq, h⟩ := bind_ok h
  obtain ⟨n, hn, h⟩ := bind_ok h
  obtain ⟨side, hs, h⟩ := bind_ok h
  obtain rfl := Except.ok.inj h
  exact ⟨cusip, quantity, side, fieldAt_ok hc, fieldAt_ok hq, fieldAt_ok hs, hn, rfl⟩

/-- A line with five fields, the fourth of which begins with a `long`. -/
def Readable (line : List Char) : Prop :=
  5 ≤ (fields line).length ∧
    ∃ quantity n, (fields line)[3]? = some quantity ∧ LeadsWithLong quantity.toList n

theorem decode_iff (line : List Char) :
    (∃ trade, decode (fields line) = .ok trade) ↔ Readable line := by
  constructor
  · intro h
    obtain ⟨trade, h⟩ := h
    obtain ⟨cusip, quantity, side, -, hq, hs, hn, -⟩ := decode_reads h
    exact ⟨(List.getElem?_eq_some_iff.mp hs).1, quantity, _, hq, stol_eq_ok_iff.mp hn⟩
  · intro h
    obtain ⟨hlen, quantity, n, hq, hn⟩ := h
    have hf : ∀ i (h : i < (fields line).length), (fields line)[i]? = some (fields line)[i] :=
      fun i h => List.getElem?_eq_getElem h
    exact ⟨_, decode_fields (hf 0 (by omega)) (hf 1 (by omega)) (hf 2 (by omega)) hq
      (hf 4 (by omega)) (stol_eq_ok_iff.mpr hn)⟩

/-- **Reading a file is the run of what it holds.** -/
theorem readFile_eq_script {σ : Type} (act : Trade → σ → Outcome σ) (file : Option String)
    (s : σ) :
    readFile act file s = (Script.ofFile decode (.stop .exit) file).run act s := by
  cases file with
  | none => rfl
  | some content => exact Script.readLines_eq_script act (dataLines content) s

end BondTradeBookingConnector

namespace BondPricingConnector

/-- What the reader has found in a record it makes a price of. -/
theorem decode_reads {record : List String} {price : Price} (h : decode record = .ok price) :
    ∃ cusip mid spread, record[0]? = some cusip ∧ record[1]? = some mid ∧
      record[2]? = some spread ∧ decimalBondPrice mid = .ok price.mid ∧
      decimalBondPrice spread = .ok price.bidOfferSpread := by
  obtain ⟨cusip, hc, h⟩ := bind_ok h
  obtain ⟨mid, hm, h⟩ := bind_ok h
  obtain ⟨midPrice, hmid, h⟩ := bind_ok h
  obtain ⟨spread, hs, h⟩ := bind_ok h
  obtain ⟨spreadPrice, hspread, h⟩ := bind_ok h
  obtain rfl := Except.ok.inj h
  exact ⟨cusip, mid, spread, fieldAt_ok hc, fieldAt_ok hm, fieldAt_ok hs, hmid, hspread⟩

/-- A line with a mid and a spread that do not throw. -/
def Readable (line : List Char) : Prop :=
  ∃ mid spread, (fields line)[1]? = some mid ∧ (fields line)[2]? = some spread ∧
    ¬ PriceThrows mid ∧ ¬ PriceThrows spread

theorem decode_iff (line : List Char) :
    (∃ price, decode (fields line) = .ok price) ↔ Readable line := by
  constructor
  · intro h
    obtain ⟨price, h⟩ := h
    obtain ⟨cusip, mid, spread, -, hm, hs, hmid, hspread⟩ := decode_reads h
    exact ⟨mid, spread, hm, hs, (decimalBondPrice_ok_iff mid).mp ⟨_, hmid⟩,
      (decimalBondPrice_ok_iff spread).mp ⟨_, hspread⟩⟩
  · intro h
    obtain ⟨mid, spread, hm, hs, hmid, hspread⟩ := h
    obtain ⟨midPrice, hmid⟩ := (decimalBondPrice_ok_iff mid).mpr hmid
    obtain ⟨spreadPrice, hspread⟩ := (decimalBondPrice_ok_iff spread).mpr hspread
    have hlen := (List.getElem?_eq_some_iff.mp hm).1
    have hc : (fields line)[0]? = some (fields line)[0] := List.getElem?_eq_getElem (by omega)
    obtain ⟨price, hprice, -⟩ := decode_ok hc hm hs hmid hspread
    exact ⟨price, hprice⟩

/-- **Reading a file is the run of what it holds.** -/
theorem readFile_eq_script {σ : Type} (act : Price → σ → Outcome σ) (file : Option String)
    (s : σ) :
    readFile act file s = (Script.ofFile decode .empty file).run act s := by
  cases file with
  | none => rfl
  | some content => exact Script.readLines_eq_script act (dataLines content) s

end BondPricingConnector

namespace BondInquiryConnector

/-- What the reader has found in a record it makes an inquiry of. -/
theorem decode_reads {record : List String} {inquiry : Inquiry} (h : decode record = .ok inquiry) :
    ∃ quantity price p, record[0]? = some inquiry.inquiryId ∧ record[3]? = some quantity ∧
      record[4]? = some price ∧ stol quantity.toList = .ok inquiry.quantity ∧
      stol price.toList = .ok p ∧ inquiry.state = .received := by
  obtain ⟨inqId, hi, h⟩ := bind_ok h
  obtain ⟨cusip, -, h⟩ := bind_ok h
  obtain ⟨side, -, h⟩ := bind_ok h
  obtain ⟨quantity, hq, h⟩ := bind_ok h
  obtain ⟨n, hn, h⟩ := bind_ok h
  obtain ⟨price, hp, h⟩ := bind_ok h
  obtain ⟨p, hpt, h⟩ := bind_ok h
  obtain rfl := Except.ok.inj h
  exact ⟨quantity, price, p, fieldAt_ok hi, fieldAt_ok hq, fieldAt_ok hp, hn, hpt, rfl⟩

/-- A line whose fourth and fifth field begin with a `long`. -/
def Readable (line : List Char) : Prop :=
  ∃ quantity price n p, (fields line)[3]? = some quantity ∧ (fields line)[4]? = some price ∧
    LeadsWithLong quantity.toList n ∧ LeadsWithLong price.toList p

theorem decode_iff (line : List Char) :
    (∃ inquiry, decode (fields line) = .ok inquiry) ↔ Readable line := by
  constructor
  · intro h
    obtain ⟨inquiry, h⟩ := h
    obtain ⟨quantity, price, p, -, hq, hp, hn, hpt, -⟩ := decode_reads h
    exact ⟨quantity, price, _, p, hq, hp, stol_eq_ok_iff.mp hn, stol_eq_ok_iff.mp hpt⟩
  · intro h
    obtain ⟨quantity, price, n, p, hq, hp, hn, hpt⟩ := h
    have hlen := (List.getElem?_eq_some_iff.mp hp).1
    have hi : (fields line)[0]? = some (fields line)[0] := List.getElem?_eq_getElem (by omega)
    have hc : (fields line)[1]? = some (fields line)[1] := List.getElem?_eq_getElem (by omega)
    obtain ⟨inquiry, hinquiry, -⟩ :=
      decode_ok hi hc hq hp (stol_eq_ok_iff.mpr hn) (stol_eq_ok_iff.mpr hpt)
    exact ⟨inquiry, hinquiry⟩

/-- **Reading a file is the run of what it holds.** -/
theorem readFile_eq_script {σ : Type} (act : Inquiry → σ → Outcome σ) (file : Option String)
    (s : σ) :
    readFile act file s = (Script.ofFile decode (.stop .exit) file).run act s := by
  cases file with
  | none => rfl
  | some content => exact Script.readLines_eq_script act (dataLines content) s

end BondInquiryConnector

/-! ## 2. What the files hold -/

namespace Desk

section Files

variable (files : String → Option String)

/-- What each file holds for its reader; without one, the prices are passed over, and the other
    three readers exit. -/
def booksScript : Script OrderBook :=
  .ofFile BondMarketDataConnector.decode (.stop .exit) (files "marketdata.txt")

def tradesScript : Script Trade :=
  .ofFile BondTradeBookingConnector.decode (.stop .exit) (files "trades.txt")

def pricesScript : Script Price :=
  .ofFile BondPricingConnector.decode .empty (files "prices.txt")

def inquiriesScript : Script Inquiry :=
  .ofFile BondInquiryConnector.decode (.stop .exit) (files "inquiries.txt")

/-- **What the four files hold for `main`**, in its order. -/
def script : Script Message :=
  ((booksScript files).map .book).andThen <| ((tradesScript files).map .trade).andThen <|
    ((pricesScript files).map .price).andThen ((inquiriesScript files).map .inquiry)

/-- **`main` is the run of what its files hold.** -/
theorem mainWith_eq_script (long : ℤ → ℤ) (uninit : Nat → ℤ) (disk : String → Option (List Item)) :
    mainWith long uninit files disk =
      (script files).run (deliverWith long uninit) (wired true disk) := by
  unfold mainWith readFiles script
  simp only [BondMarketDataConnector.readFile_eq_script,
    BondTradeBookingConnector.readFile_eq_script, BondPricingConnector.readFile_eq_script,
    BondInquiryConnector.readFile_eq_script, Script.run_andThen, Script.run_map]
  rfl

theorem main_eq_script (uninit : Nat → ℤ) (disk : String → Option (List Item)) :
    main uninit files disk = (script files).run (deliver uninit) (wired true disk) := by
  have hexact : deliverWith id uninit = deliver uninit := by
    funext m
    cases m <;> rfl
  rw [main, mainWith_eq_script, hexact]

variable {files}

/-- All the messages there may be, file by file. -/
theorem messages_script_sublist :
    (script files).messages.Sublist
      ((booksScript files).messages.map .book ++ ((tradesScript files).messages.map .trade ++
        ((pricesScript files).messages.map .price ++
          (inquiriesScript files).messages.map .inquiry))) :=
  (Script.messages_andThen_sublist _ _).trans <| List.Sublist.append_left
    ((Script.messages_andThen_sublist _ _).trans <| List.Sublist.append_left
      (Script.messages_andThen_sublist _ _) _) _

variable (files) in
/-- The messages are as the readers make them. -/
theorem asRead_script : ∀ m ∈ (script files).messages, m.AsRead := by
  intro m hm
  have hmem := messages_script_sublist.subset hm
  simp only [List.mem_append, List.mem_map] at hmem
  rcases hmem with ⟨book, h, rfl⟩ | ⟨trade, h, rfl⟩ | ⟨price, -, rfl⟩ | ⟨inquiry, h, rfl⟩
  · obtain ⟨record, hrecord⟩ := Script.mem_ofFile (by simp [Script.stop]) h
    obtain ⟨cusip, price, midPrice, -, -, -, rfl⟩ := BondMarketDataConnector.decode_reads hrecord
    exact BondMarketDataConnector.bookAround_twoSided _ _
  · obtain ⟨record, hrecord⟩ := Script.mem_ofFile (by simp [Script.stop]) h
    obtain ⟨cusip, -, -, -, -, -, -, hproduct⟩ := BondTradeBookingConnector.decode_reads hrecord
    show trade.product = Bond.ofCusip trade.product.productId
    rw [hproduct, Bond.productId_ofCusip]
  · trivial
  · obtain ⟨record, hrecord⟩ := Script.mem_ofFile (by simp [Script.stop]) h
    obtain ⟨quantity, price, p, -, -, -, -, -, hstate⟩ := BondInquiryConnector.decode_reads hrecord
    exact hstate

/-- The place of a flow's file in `main`. -/
def place : Flow → Nat
  | .books => 0
  | .trades => 1
  | .prices => 2
  | .inquiries => 3

theorem place_injective {a b : Flow} (h : place a = place b) : a = b := by
  cases a <;> cases b <;> first | rfl | cases h

/-- **`main` takes one flow after the other**, none of them twice. -/
theorem flows_script :
    ((script files).messages.map Message.flow).Pairwise fun a b => place a ≤ place b := by
  refine List.Pairwise.sublist (messages_script_sublist.map Message.flow) ?_
  simp only [List.map_append, List.map_map, List.pairwise_append, List.mem_append, List.mem_map,
    Function.comp_apply, List.pairwise_map, Message.flow]
  refine ⟨List.pairwise_of_forall fun _ _ => Nat.le_refl _,
    ⟨List.pairwise_of_forall fun _ _ => Nat.le_refl _,
      ⟨List.pairwise_of_forall fun _ _ => Nat.le_refl _,
        List.pairwise_of_forall fun _ _ => Nat.le_refl _, ?_⟩, ?_⟩, ?_⟩
  · rintro a ⟨_, -, rfl⟩ b ⟨_, -, rfl⟩
    decide
  · rintro a ⟨_, -, rfl⟩ b (⟨_, -, rfl⟩ | ⟨_, -, rfl⟩) <;> decide
  · rintro a ⟨_, -, rfl⟩ b (⟨_, -, rfl⟩ | ⟨_, -, rfl⟩ | ⟨_, -, rfl⟩) <;> decide

/-- Whatever part of them, in their order: no flow comes back. -/
theorem grouped_script {ms : List Message} (h : ms <+: (script files).messages) :
    Grouped (ms.map Message.flow) :=
  grouped_of_pairwise (fun _ _ hab hba => place_injective (Nat.le_antisymm hab hba))
    (flows_script.sublist (h.sublist.map Message.flow))

end Files

end Desk

/-! ## 3. What is refused -/

/-- An inquiry with an id that was there already, `pre` being the messages before it. -/
def Message.Known (pre : List Message) : Message → Prop
  | .inquiry asked => asked.inquiryId ∈ (inquiriesIn pre).map Inquiry.inquiryId
  | _ => False

instance (pre : List Message) (m : Message) : Decidable (Message.Known pre m) := by
  cases m <;> unfold Message.Known <;> infer_instance

/-- **The messages a desk gets through**: those in front of the first known inquiry. -/
def accepted (ms : List Message) : List Message := upTo Message.Known [] ms

namespace Desk

section Accepted

variable {uninit : Nat → ℤ} {disk : String → Option (List Item)} {pre ms : List Message}
  {m : Message} {d : Desk}

theorem deliver_new (h : Held uninit pre d) (hm : m.AsRead) (hnew : ¬ m.Known pre) :
    ∃ d', deliver uninit m d = .done d' ∧ Held uninit (pre ++ [m]) d' := by
  obtain ⟨d', hd⟩ := h.goes hm fun inquiry hinquiry => by
    rw [hinquiry] at hnew
    exact hnew
  exact ⟨d', hd, (held_deliver h hm hd).1⟩

/-- **A known inquiry is the end**: the process exits, and has written nothing for it. -/
theorem deliver_known (h : Held uninit pre d) (hm : m.AsRead) (hknown : m.Known pre) :
    ∃ inquirySrv, deliver uninit m d = .stopped .exit { d with inquirySrv := inquirySrv } := by
  cases m with
  | trade _ | price _ | book _ => exact absurd hknown id
  | inquiry asked =>
      have haccept := BondInquiryConnector.accept_known hm h.inquiries.allDone
        (h.inquiries.ids ▸ hknown)
      have hd := acceptInquiry_any asked d
      rw [haccept] at hd
      exact ⟨_, hd⟩

/-- **A run of any messages**, as the readers make them: those up to the first known inquiry get
    through, and nothing is written behind them. -/
theorem run_accepted (uninit : Nat → ℤ) (disk : String → Option (List Item))
    (hread : ∀ m ∈ ms, m.AsRead) :
    ∃ d, runAll (deliver uninit) (accepted ms) (wired true disk) = .done d ∧
      Held uninit (accepted ms) d ∧
      ((accepted ms = ms ∧ runAll (deliver uninit) ms (wired true disk) = .done d) ∨
        (accepted ms ≠ ms ∧ ∃ inquirySrv, runAll (deliver uninit) ms (wired true disk) =
          .stopped .exit { d with inquirySrv := inquirySrv })) := by
  obtain ⟨d, hd, hheld, hend⟩ := runAll_upTo Message.Known (J := Held uninit)
    (R := fun d why d' => ∃ inquirySrv, why = .exit ∧ d' = { d with inquirySrv := inquirySrv }) ms
    (held_wired uninit disk)
    (fun pre m d hm h hnew => deliver_new h (hread m hm) hnew)
    (fun pre m d hm h hknown => by
      obtain ⟨inquirySrv, hd'⟩ := deliver_known h (hread m hm) hknown
      exact ⟨.exit, _, hd', inquirySrv, rfl, rfl⟩)
  refine ⟨d, hd, hheld, hend.imp id ?_⟩
  rintro ⟨hnot, why, d', hd', inquirySrv, rfl, rfl⟩
  exact ⟨hnot, inquirySrv, hd'⟩

theorem accepted_eq_iff (hread : ∀ m ∈ ms, m.AsRead) :
    accepted ms = ms ↔ ((inquiriesIn ms).map Inquiry.inquiryId).Nodup := by
  obtain ⟨d, -, hheld, hend⟩ := run_accepted (fun _ => 0) (fun _ => none) hread
  constructor
  · intro h
    rw [h] at hheld
    exact hheld.inquiries.distinct
  · intro hids
    obtain ⟨d', hd'⟩ := runs_of_nodup (fun _ => 0) (fun _ => none) hread hids
    rcases hend with ⟨hall, -⟩ | ⟨-, inquirySrv, hd''⟩
    · exact hall
    · rw [hd''] at hd'
      cases hd'

end Accepted

/-! ## 4. How main ends, and what it leaves -/

section Main

variable (uninit : Nat → ℤ) (files : String → Option String) (disk : String → Option (List Item))

/-- **The messages `main` gets through.** -/
def taken : List Message := accepted (script files).messages

theorem taken_isPrefix : taken files <+: (script files).messages := upTo_isPrefix _ _

/-- **A run of `main`, however it ends**: what it takes gets through, and but for the inquiry service
    the desk is left as that leaves it. -/
theorem main_cases :
    ∃ d, runAll (deliver uninit) (taken files) (wired true disk) = .done d ∧
      Held uninit (taken files) d ∧
      ((taken files = (script files).messages ∧
          main uninit files disk = halt (script files).ending d) ∨
        (taken files ≠ (script files).messages ∧
          ∃ inquirySrv, main uninit files disk =
            .stopped .exit { d with inquirySrv := inquirySrv })) := by
  obtain ⟨d, hd, hheld, hend⟩ := run_accepted uninit disk (asRead_script files)
  refine ⟨d, hd, hheld, ?_⟩
  rw [main_eq_script, Script.run]
  rcases hend with ⟨hall, hrun⟩ | ⟨hnot, inquirySrv, hrun⟩
  · refine Or.inl ⟨hall, ?_⟩
    rw [hrun]
    rfl
  · refine Or.inr ⟨hnot, inquirySrv, ?_⟩
    rw [hrun]
    rfl

/-- **How `main` ends is a matter of its input.** -/
theorem ending_main : (main uninit files disk).ending =
    if taken files = (script files).messages then (script files).ending else some .exit := by
  obtain ⟨d, -, -, ⟨hall, hmain⟩ | ⟨hnot, inquirySrv, hmain⟩⟩ := main_cases uninit files disk
  · rw [hmain, ending_halt, if_pos hall]
  · rw [hmain, if_neg hnot]
    rfl

/-- The desk is left as what is taken leaves it, but for the inquiry service. -/
theorem state_main :
    ∃ d inquirySrv, runAll (deliver uninit) (taken files) (wired true disk) = .done d ∧
      Held uninit (taken files) d ∧
      (main uninit files disk).state = { d with inquirySrv := inquirySrv } := by
  obtain ⟨d, hd, hheld, ⟨-, hmain⟩ | ⟨-, inquirySrv, hmain⟩⟩ := main_cases uninit files disk
  · rw [hmain, state_halt]
    exact ⟨d, d.inquirySrv, hd, hheld, rfl⟩
  · rw [hmain]
    exact ⟨d, inquirySrv, hd, hheld, rfl⟩

/-- `main` ends normally if nothing ends the reading, and nothing is refused. -/
theorem main_done_iff :
    (∃ d, main uninit files disk = .done d) ↔
      (script files).ending = none ∧ taken files = (script files).messages := by
  have hdone : (∃ d, main uninit files disk = .done d) ↔ (main uninit files disk).ending = none := by
    cases main uninit files disk with
    | done s => simp [Outcome.ending]
    | stopped why s => simp [Outcome.ending]
  rw [hdone, ending_main]
  split_ifs with hall
  · exact ⟨fun h => ⟨h, hall⟩, And.left⟩
  · exact ⟨fun h => (by cases h), fun h => absurd h.2 hall⟩

/-- **Whole input**: every file is there, the prices perhaps not, every data line can be read, and no
    inquiry id comes twice. -/
structure Whole : Prop where
  books : ∃ content, files "marketdata.txt" = some content ∧
    ∀ line ∈ dataLines content, BondMarketDataConnector.Readable line
  trades : ∃ content, files "trades.txt" = some content ∧
    ∀ line ∈ dataLines content, BondTradeBookingConnector.Readable line
  prices : ∀ content, files "prices.txt" = some content →
    ∀ line ∈ dataLines content, BondPricingConnector.Readable line
  inquiries : ∃ content, files "inquiries.txt" = some content ∧
    (∀ line ∈ dataLines content, BondInquiryConnector.Readable line) ∧
    ((dataLines content).map (fieldText 0)).Nodup

theorem ending_script :
    (script files).ending = none ↔
      (booksScript files).ending = none ∧ (tradesScript files).ending = none ∧
        (pricesScript files).ending = none ∧ (inquiriesScript files).ending = none := by
  simp only [script, Script.ending_andThen_eq_none, Script.ending_map]

variable {files}

/-- Files that are read to their ends have the messages of all four. -/
theorem messages_script (h : (script files).ending = none) :
    (script files).messages =
      (booksScript files).messages.map .book ++ ((tradesScript files).messages.map .trade ++
        ((pricesScript files).messages.map .price ++
          (inquiriesScript files).messages.map .inquiry)) := by
  obtain ⟨hbooks, htrades, hprices, -⟩ := (ending_script files).mp h
  rw [script, Script.messages_andThen (by exact hbooks), Script.messages_andThen (by exact htrades),
    Script.messages_andThen (by exact hprices)]
  rfl

/-- The messages of each kind are then those of its file. -/
theorem kinds_script (h : (script files).ending = none) :
    booksIn (script files).messages = (booksScript files).messages ∧
      tradesIn (script files).messages = (tradesScript files).messages ∧
      pricesIn (script files).messages = (pricesScript files).messages ∧
      inquiriesIn (script files).messages = (inquiriesScript files).messages := by
  rw [messages_script h]
  simp [booksIn, tradesIn, pricesIn, inquiriesIn, List.filterMap_append, List.filterMap_map,
    Function.comp_def, Message.asBook, Message.asTrade, Message.asPrice, Message.asInquiry]

/-- **When `main` ends normally**: exactly on whole input. -/
theorem main_ends_iff (uninit : Nat → ℤ) (files : String → Option String)
    (disk : String → Option (List Item)) :
    (∃ d, main uninit files disk = .done d) ↔ Whole files := by
  have hids : ∀ content, files "inquiries.txt" = some content → (script files).ending = none →
      (inquiriesIn (script files).messages).map Inquiry.inquiryId =
        (dataLines content).map (fieldText 0) := by
    intro content hcontent hending
    have hending' := ((ending_script files).mp hending).2.2.2
    rw [(kinds_script hending).2.2.2]
    rw [inquiriesScript, hcontent] at hending' ⊢
    refine Script.map_ofLines hending' fun line inquiry hd => ?_
    obtain ⟨quantity, price, p, hid, -⟩ := BondInquiryConnector.decode_reads hd
    exact (fieldText_eq hid).symm
  have hread : (script files).ending = none ↔
      (∃ content, files "marketdata.txt" = some content ∧
        ∀ line ∈ dataLines content, BondMarketDataConnector.Readable line) ∧
      (∃ content, files "trades.txt" = some content ∧
        ∀ line ∈ dataLines content, BondTradeBookingConnector.Readable line) ∧
      (∀ content, files "prices.txt" = some content →
        ∀ line ∈ dataLines content, BondPricingConnector.Readable line) ∧
      ∃ content, files "inquiries.txt" = some content ∧
        ∀ line ∈ dataLines content, BondInquiryConnector.Readable line := by
    simp only [ending_script, booksScript, tradesScript, pricesScript, inquiriesScript,
      Script.ending_ofFile_stop, Script.ending_ofFile_empty, BondMarketDataConnector.decode_iff,
      BondTradeBookingConnector.decode_iff, BondPricingConnector.decode_iff,
      BondInquiryConnector.decode_iff]
  rw [main_done_iff, taken, accepted_eq_iff (asRead_script files)]
  constructor
  · intro h
    obtain ⟨hbooks, htrades, hprices, content, hcontent, hlines⟩ := hread.mp h.1
    exact ⟨hbooks, htrades, hprices, content, hcontent, hlines, hids content hcontent h.1 ▸ h.2⟩
  · intro h
    obtain ⟨content, hcontent, hlines, hdistinct⟩ := h.inquiries
    have hending := hread.mpr ⟨h.books, h.trades, h.prices, content, hcontent, hlines⟩
    exact ⟨hending, hids content hcontent hending ▸ hdistinct⟩

variable (files) in
theorem asRead_taken : ∀ m ∈ taken files, m.AsRead := fun m hm =>
  asRead_script files m ((taken_isPrefix files).subset hm)

/-- **`main` over any arithmetic of `long`s** goes as in whole numbers, if no sum overflows that the
    trades taken set off. -/
theorem mainWith_exact {long : ℤ → ℤ} (hlong : LongArithmetic long)
    (hfit : LongsFit uninit (tradesIn (taken files))) :
    mainWith long uninit files disk = main uninit files disk := by
  have hread := asRead_script files
  rw [mainWith_eq_script, main_eq_script, Script.run, Script.run,
    runAll_deliverWith_of_reached hlong hread]
  intro pre trade post d hms h
  have hpre : accepted pre = pre :=
    (accepted_eq_iff fun m hm => hread m (hms ▸ List.mem_append_left _ hm)).mpr h.inquiries.distinct
  refine hfit.at_trade ?_
  rw [taken, hms, accepted, upTo_append hpre]
  exact (List.prefix_append_right_inj _).mpr ⟨_, rfl⟩

/-- What a run of `main` leaves on the disk, in terms of what it has taken. -/
theorem disk_main (hlen : (taken files).length < 2147483648) (file : String) :
    (main uninit files disk).state.archive.disk file =
      filedOver disk (published uninit (taken files)) file := by
  obtain ⟨d, inquirySrv, hrun, -, hstate⟩ := state_main uninit files disk
  rw [hstate]
  exact disk_of_grouped (asRead_taken files) hlen hrun (grouped_script (taken_isPrefix files)) file

/-- **What a run of `main` leaves on the disk, however it ends** (unless it is undefined): every
    report holds its header and what was published for the messages taken until then, and every other
    file is as it was. -/
theorem main_disk (uninit : Nat → ℤ) (files : String → Option String)
    (disk : String → Option (List Item)) (hlen : (taken files).length < 2147483648) :
    (main uninit files disk).ending ≠ some .undefined →
      ∀ file, (main uninit files disk).state.archive.disk file =
        filedOver disk (published uninit (taken files)) file :=
  fun _ => disk_main uninit disk hlen

/-- One trade, and a line whose quantity is no number; the inquiries are never reached. -/
def brokenFiles : String → Option String
  | "marketdata.txt" => some "CUSIP,mid\n912828M72,99-000\n"
  | "trades.txt" =>
      some "CUSIP,TradeID,Book,Quantity,Side\n912828M72,T1,TRSY1,1000,BUY\n912828M72,T2,TRSY1,x,BUY\n"
  | "inquiries.txt" => some "InquiryID,CUSIP,side,quantity,price,state\n"
  | _ => none

theorem script_brokenFiles : (taken brokenFiles).length = 2 ∧
    taken brokenFiles = (script brokenFiles).messages ∧
    (script brokenFiles).ending = some .invalidArgument := by
  decide +kernel

/-- The theorem at these files: the process ends with an exception. -/
theorem main_disk_broken :
    (main (fun _ => 0) brokenFiles fun _ => none).ending = some .invalidArgument ∧
      ∀ file, (main (fun _ => 0) brokenFiles fun _ => none).state.archive.disk file =
        filedOver (fun _ => none) (published (fun _ => 0) (taken brokenFiles)) file := by
  obtain ⟨hlength, hall, hscript⟩ := script_brokenFiles
  have hending := ending_main (fun _ => 0) brokenFiles fun _ => none
  rw [if_pos hall, hscript] at hending
  refine ⟨hending, main_disk (fun _ => 0) brokenFiles (fun _ => none) ?_ ?_⟩
  · rw [hlength]
    decide
  · rw [hending]
    decide

end Main

end Desk

end BondTrading
