/-
  File:      BondTrading/InquiryFiles.lean
  Subject:   WHOLE INQUIRY FILES: from the characters of a file to the inquiries a service holds.

  * `decode_cases`, `ReadFrom` -- what the reader makes of any record;
  * `Spells`, `WellFormed` -- a line says an inquiry, word for word; a line the reader takes;
  * `acceptHeard_fresh`, `acceptHeard_known` -- what one inquiry does to a service all of whose
    inquiries are done;
  * `inquiries_answered` -- a well-formed file with distinct ids leaves one done inquiry per line;
  * `uniqueIds_iff` -- the ids of the store and of a file, over all messages and all files;
  * `only_what_files_say_iff` -- the trade and inquiry files of which nothing else is taken.
-/
import BondTrading.InquiryRuns
import BondTrading.TradeFiles

namespace BondTrading

open Cxx

namespace BondInquiryConnector

variable {ι : Type}

/-! ## 1. One record -/

/-- The quantity or, behind it, the price of a record is no `long`: the reader throws. -/
def Throws (record : List String) : Prop :=
  (∃ quantity why, record[3]? = some quantity ∧ stol quantity.toList = .error why) ∨
  ∃ quantity n price why, record[3]? = some quantity ∧ stol quantity.toList = .ok n ∧
    record[4]? = some price ∧ stol price.toList = .error why

/-- The inquiry the reader makes of a record. -/
structure ReadFrom (record : List String) (inquiry : Inquiry) : Prop where
  inquiryId : record[0]? = some inquiry.inquiryId
  product : ∃ cusip, record[1]? = some cusip ∧ inquiry.product = Bond.ofCusip cusip
  side : ∃ side, record[2]? = some side ∧
    inquiry.side = if side.toList.head? = some 'B' then .buy else .sell
  quantity : ∃ quantity, record[3]? = some quantity ∧
    stol quantity.toList = .ok inquiry.quantity
  price : ∃ price, record[4]? = some price
  state : inquiry.state = .received

/-- A record without a quantity throws nothing. -/
theorem not_throws_short {record : List String} (hq : record[3]? = none) : ¬ Throws record := by
  intro hthrows
  rcases hthrows with ⟨quantity, why, hq', -⟩ | ⟨quantity, n, price, why, hq', -⟩
  · rw [hq] at hq'
    cases hq'
  · rw [hq] at hq'
    cases hq'

/-- Nor does one whose quantity is read as a number, and its price too if it has one. -/
theorem not_throws {record : List String} {quantity : String} {n : ℤ}
    (hq : record[3]? = some quantity) (hn : stol quantity.toList = .ok n)
    (hp : ∀ price, record[4]? = some price → ∃ p, stol price.toList = .ok p) : ¬ Throws record := by
  intro hthrows
  rcases hthrows with ⟨quantity', why, hq', hwhy⟩ | ⟨_, _, price, why, _, _, hp', hwhy⟩
  · rw [← Option.some.inj (hq.symm.trans hq'), hn] at hwhy
    cases hwhy
  · obtain ⟨p, hpt⟩ := hp price hp'
    rw [hpt] at hwhy
    cases hwhy

/-- **What the reader makes of a record**: an inquiry, an exception, or a read past its end. -/
theorem decode_cases (record : List String) :
    (∃ inquiry, ¬ Throws record ∧ decode record = .ok inquiry ∧ ReadFrom record inquiry) ∨
    (Throws record ∧ ∃ why, why ≠ .undefined ∧ decode record = .error why) ∨
    (¬ Throws record ∧ record[4]? = none ∧ decode record = .error .undefined) := by
  match record with
  | [] => exact Or.inr (Or.inr ⟨not_throws_short rfl, rfl, rfl⟩)
  | [_] => exact Or.inr (Or.inr ⟨not_throws_short rfl, rfl, rfl⟩)
  | [_, _] => exact Or.inr (Or.inr ⟨not_throws_short rfl, rfl, rfl⟩)
  | [_, _, _] => exact Or.inr (Or.inr ⟨not_throws_short rfl, rfl, rfl⟩)
  | inqId :: cusip :: side :: quantity :: rest =>
      cases hq : stol quantity.toList with
      | error why =>
          refine Or.inr (Or.inl ⟨Or.inl ⟨quantity, why, rfl, hq⟩, why, ?_, ?_⟩)
          · intro he
            rw [he] at hq
            exact stoInteger_ne_undefined hq
          · simp [decode, fieldAt, hq, bind, Except.bind]
      | ok n =>
          cases rest with
          | nil =>
              refine Or.inr (Or.inr ⟨?_, rfl, ?_⟩)
              · exact not_throws rfl hq fun price hp => by cases hp
              · simp [decode, fieldAt, hq, bind, Except.bind]
          | cons price rest =>
              cases hp : stol price.toList with
              | error why =>
                  refine Or.inr (Or.inl ⟨Or.inr ⟨quantity, n, price, why, rfl, hq, rfl, hp⟩,
                    why, ?_, ?_⟩)
                  · intro he
                    rw [he] at hp
                    exact stoInteger_ne_undefined hp
                  · simp [decode, fieldAt, hq, hp, bind, Except.bind]
              | ok p =>
                  refine Or.inl ⟨_, ?_, decode_fields rfl rfl rfl rfl rfl hq hp, ?_⟩
                  · exact not_throws rfl hq fun price' hp' => ⟨p, Option.some.inj hp' ▸ hp⟩
                  · exact ⟨rfl, ⟨cusip, rfl, rfl⟩, ⟨side, rfl, rfl⟩, ⟨quantity, rfl, hq⟩,
                      ⟨price, rfl⟩, rfl⟩

/-! ## 2. What a line says -/

/-- **The line says the inquiry**: id, CUSIP, side and quantity, each in a field of its own, and a
    field for the price behind them. -/
structure Spells (line : List Char) (inquiry : Inquiry) : Prop where
  inquiryId : (fields line)[0]? = some inquiry.inquiryId
  product : ∃ cusip, (fields line)[1]? = some cusip ∧ inquiry.product = Bond.ofCusip cusip
  side : (fields line)[2]? = some inquiry.side.text
  quantity : ∃ text, (fields line)[3]? = some text ∧ IntegerText text.toList inquiry.quantity
  price : ∃ price, (fields line)[4]? = some price

/-- The reader's test of the first character is right on the two texts of a side. -/
theorem side_text (side : Side) :
    (if side.text.toList.head? = some 'B' then Side.buy else Side.sell) = side := by
  cases side <;> decide

/-- A line that says some inquiry says the one that is read from it. -/
theorem Spells.readFrom {line : List Char} {inquiry read : Inquiry} (h : Spells line inquiry)
    (hread : ReadFrom (fields line) read) : Spells line read where
  inquiryId := hread.inquiryId
  product := hread.product
  side := by
    obtain ⟨side, hs, hside⟩ := hread.side
    rw [h.side] at hs
    rw [hside, ← Option.some.inj hs, side_text]
    exact h.side
  quantity := by
    obtain ⟨text, htext, hinteger⟩ := h.quantity
    obtain ⟨quantity, hq, hn⟩ := hread.quantity
    rw [htext] at hq
    rw [← Option.some.inj hq] at hn
    exact ⟨text, htext, stol_integerText hinteger hn ▸ hinteger⟩
  price := hread.price

/-- What a line says of an inquiry does not depend on its price and its state. -/
theorem spells_iff {line : List Char} {e e' : Inquiry} (hid : e.inquiryId = e'.inquiryId)
    (hproduct : e.product = e'.product) (hside : e.side = e'.side)
    (hquantity : e.quantity = e'.quantity) : Spells line e ↔ Spells line e' := by
  refine ⟨fun h => ?_, fun h => ?_⟩
  · exact ⟨hid ▸ h.inquiryId, hproduct ▸ h.product, hside ▸ h.side, hquantity ▸ h.quantity, h.price⟩
  · exact ⟨hid.symm ▸ h.inquiryId, hproduct.symm ▸ h.product, hside.symm ▸ h.side,
      hquantity.symm ▸ h.quantity, h.price⟩

/-- **A well-formed line**: an id, a CUSIP, `BUY` or `SELL`, a `long` in decimal, and a price that
    begins with a number. -/
def WellFormed (line : List Char) : Prop :=
  ∃ side : Side, ∃ quantity n price p, (fields line)[2]? = some side.text ∧
    (fields line)[3]? = some quantity ∧ LongText quantity.toList n ∧
    (fields line)[4]? = some price ∧ stol price.toList = .ok p

/-- **A well-formed line is read as the inquiry it says.** -/
theorem WellFormed.decode_eq {line : List Char} (h : WellFormed line) :
    ∃ inquiry, decode (fields line) = .ok inquiry ∧ inquiry.state = .received ∧
      Spells line inquiry := by
  obtain ⟨side, quantity, n, price, p, hs, hq, hn, hp, hpt⟩ := h
  have hlen := (List.getElem?_eq_some_iff.mp hp).1
  have hi : (fields line)[0]? = some (fields line)[0] := List.getElem?_eq_getElem (by omega)
  have hc : (fields line)[1]? = some (fields line)[1] := List.getElem?_eq_getElem (by omega)
  have hread := decode_fields hi hc hs hq hp (stol_longText hn) hpt
  rw [side_text] at hread
  exact ⟨_, hread, rfl, hi, ⟨_, hc, rfl⟩, hs, ⟨quantity, hq, hn.integerText⟩, ⟨price, hp⟩⟩

/-! ## 3. One inquiry -/

/-- `accept` on the service and the calls its listeners have had so far. -/
def acceptHeard (inquiry : Inquiry) (s : BondInquiryService ι × List (ι × Inquiry)) :
    Outcome (BondInquiryService ι × List (ι × Inquiry)) :=
  match accept inquiry s.1 with
  | .done (service, calls) => .done (service, s.2 ++ calls)
  | .stopped why (service, calls) => .stopped why (service, s.2 ++ calls)

/-- What has been read into an empty service: done inquiries, of which everybody has been told. -/
def AllDone (listeners : List ι) (inquiries : List Inquiry)
    (s : BondInquiryService ι × List (ι × Inquiry)) : Prop :=
  s = (⟨inquiries.map finished, listeners⟩, (inquiries.map finished).flatMap (notify listeners))

theorem ids_finished (inquiries : List Inquiry) :
    (inquiries.map finished).map Inquiry.inquiryId = inquiries.map Inquiry.inquiryId := by
  rw [List.map_map]
  rfl

section OneInquiry

variable {listeners : List ι} {inquiries : List Inquiry} {inquiry : Inquiry}
  (hstate : inquiry.state = .received)

include hstate

/-- An inquiry with a new id is answered. -/
theorem acceptHeard_fresh (hnew : inquiry.inquiryId ∉ inquiries.map Inquiry.inquiryId)
    {s : BondInquiryService ι × List (ι × Inquiry)} (h : AllDone listeners inquiries s) :
    ∃ s', acceptHeard inquiry s = .done s' ∧ AllDone listeners (inquiries ++ [inquiry]) s' := by
  rw [← ids_finished] at hnew
  rw [h, acceptHeard, accept_fresh hstate hnew]
  refine ⟨_, rfl, ?_⟩
  rw [AllDone, List.map_append, List.flatMap_append, List.map_singleton, List.flatMap_singleton]

/-- An inquiry with a known id is left unanswered, and the process exits. -/
theorem acceptHeard_known (hknown : inquiry.inquiryId ∈ inquiries.map Inquiry.inquiryId)
    {s : BondInquiryService ι × List (ι × Inquiry)} (h : AllDone listeners inquiries s) :
    acceptHeard inquiry s = .stopped .exit
      (⟨inquiries.map finished ++ [{ inquiry with price := 100 }], listeners⟩, s.2) := by
  rw [← ids_finished] at hknown
  have hdone : ∀ e ∈ inquiries.map finished, e.state = .done := by
    intro e he
    obtain ⟨e', -, rfl⟩ := List.mem_map.mp he
    rfl
  rw [h, acceptHeard, accept_known hstate hdone hknown]
  show Outcome.stopped _ (_, _ ++ []) = _
  rw [List.append_nil]

end OneInquiry

/-- **Received inquiries with distinct ids are all answered.** -/
theorem runAll_acceptHeard (listeners : List ι) {inquiries : List Inquiry}
    (hstate : ∀ inquiry ∈ inquiries, inquiry.state = .received)
    (hids : (inquiries.map Inquiry.inquiryId).Nodup) :
    ∃ s, runAll acceptHeard inquiries (⟨[], listeners⟩, []) = .done s ∧
      AllDone listeners inquiries s := by
  refine runAll_invariant (I := AllDone listeners) inquiries rfl ?_
  intro pre inquiry post s hsplit h
  have hnew : inquiry.inquiryId ∉ pre.map Inquiry.inquiryId := by
    rw [hsplit, List.map_append, List.map_cons, List.nodup_middle, List.nodup_cons] at hids
    exact fun hmem => hids.1 (List.mem_append_left _ hmem)
  exact acceptHeard_fresh (hstate inquiry (by rw [hsplit]; simp)) hnew h

/-- **A repeated id ends the reading** where it comes up a second time. -/
theorem runAll_acceptHeard_repeated (listeners : List ι) {pre post : List Inquiry}
    {inquiry : Inquiry} (hstate : ∀ e ∈ pre ++ inquiry :: post, e.state = .received)
    (hids : (pre.map Inquiry.inquiryId).Nodup)
    (hknown : inquiry.inquiryId ∈ pre.map Inquiry.inquiryId) :
    ∃ heard, runAll acceptHeard (pre ++ inquiry :: post) (⟨[], listeners⟩, []) = .stopped .exit
      (⟨pre.map finished ++ [{ inquiry with price := 100 }], listeners⟩, heard) := by
  obtain ⟨s, hs, hdone⟩ := runAll_acceptHeard listeners
    (fun e he => hstate e (List.mem_append_left _ he)) hids
  refine ⟨s.2, ?_⟩
  rw [runAll_append, hs]
  show (acceptHeard inquiry s).andThen _ = _
  rw [acceptHeard_known (hstate inquiry (by simp)) hknown hdone]
  rfl

/-! ## 4. Well-formed files -/

/-- A line and the inquiry that is left of it. -/
structure Answered (line : List Char) (inquiry : Inquiry) : Prop where
  spells : Spells line inquiry
  price : inquiry.price = 100
  state : inquiry.state = .done

section File

variable (listeners : List ι) {content : String}
  (hwf : ∀ line ∈ dataLines content, WellFormed line)

include hwf

/-- The inquiries of a well-formed file, and that reading it is accepting them. -/
theorem readFile_wellFormed :
    ∃ inquiries, (∀ inquiry ∈ inquiries, inquiry.state = .received) ∧
      List.Forall₂ Spells (dataLines content) inquiries ∧
      readFile acceptHeard (some content) (⟨[], listeners⟩, []) =
        runAll acceptHeard inquiries (⟨[], listeners⟩, []) := by
  obtain ⟨inquiries, hall⟩ := exists_forall₂ fun line hl => (hwf line hl).decode_eq
  refine ⟨inquiries, ?_, hall.imp fun _ _ h => h.2.2, ?_⟩
  · intro inquiry hinquiry
    obtain ⟨line, -, h⟩ := exists_of_mem_forall₂ hall hinquiry
    exact h.2.1
  · exact readLines_eq_runAll decode acceptHeard (hall.imp fun _ _ h => h.1) _

omit hwf in
/-- The ids of a file are those of its inquiries. -/
theorem ids_of_spells {lines : List (List Char)} {inquiries : List Inquiry}
    (h : List.Forall₂ Spells lines inquiries) :
    lines.map (fun line => (fields line)[0]?) =
      (inquiries.map Inquiry.inquiryId).map some := by
  induction h with
  | nil => rfl
  | cons hspells _ ih =>
      rw [List.map_cons, List.map_cons, List.map_cons, ih, hspells.inquiryId]

/-- **A well-formed file with distinct ids is answered to its end**: no exit, one done inquiry at 100
    for every line, in order, and every listener told each of them once. -/
theorem inquiries_answered
    (hids : ((dataLines content).map fun line => (fields line)[0]?).Nodup) :
    ∃ inquiries, readFile acceptHeard (some content) (⟨[], listeners⟩, []) =
        .done (⟨inquiries, listeners⟩, inquiries.flatMap (notify listeners)) ∧
      List.Forall₂ Answered (dataLines content) inquiries := by
  obtain ⟨inquiries, hstate, hspells, hread⟩ := readFile_wellFormed listeners hwf
  rw [ids_of_spells hspells] at hids
  obtain ⟨s, hs, hdone⟩ := runAll_acceptHeard listeners hstate hids.of_map
  refine ⟨inquiries.map finished, ?_, ?_⟩
  · rw [hread, hs, hdone]
  · rw [List.forall₂_map_right_iff]
    refine hspells.imp fun line inquiry h => ⟨?_, rfl, rfl⟩
    have hsame : Spells line (finished inquiry) ↔ Spells line inquiry := spells_iff rfl rfl rfl rfl
    exact hsame.mpr h

end File

/-- Two lines, two ids. -/
def twoInquiries : String :=
  "h\nI1,912828M72,BUY,1000,0,RECEIVED\nI2,912828N22,SELL,-5,99-001"

theorem dataLines_twoInquiries :
    dataLines twoInquiries = ["I1,912828M72,BUY,1000,0,RECEIVED".toList,
      "I2,912828N22,SELL,-5,99-001".toList] := by
  decide +kernel

theorem wellFormed_twoInquiries : ∀ line ∈ dataLines twoInquiries, WellFormed line := by
  intro line hline
  rw [dataLines_twoInquiries] at hline
  rcases List.mem_pair.mp hline with rfl | rfl
  · exact ⟨.buy, "1000", 1000, "0", 0, by decide +kernel, by decide +kernel,
      ⟨['1', '0', '0', '0'], by decide, .inl ⟨by decide +kernel, rfl⟩, by decide, by decide⟩,
      by decide +kernel, by decide +kernel⟩
  · exact ⟨.sell, "-5", -5, "99-001", 99, by decide +kernel, by decide +kernel,
      ⟨['5'], by decide, .inr ⟨by decide +kernel, rfl⟩, by decide, by decide⟩,
      by decide +kernel, by decide +kernel⟩

/-- The theorem at the two lines. -/
theorem inquiries_answered_two :
    ∃ inquiries, readFile acceptHeard (some twoInquiries) (⟨[], ["report"]⟩, []) =
        .done (⟨inquiries, ["report"]⟩, inquiries.flatMap (notify ["report"])) ∧
      List.Forall₂ Answered (dataLines twoInquiries) inquiries :=
  inquiries_answered ["report"] wellFormed_twoInquiries (by
    rw [dataLines_twoInquiries]
    decide +kernel)

/-! ## 5. Unique ids -/

/-- **Nobody is left waiting**: every stored inquiry is the one its id finds, and none is received
    and not answered. -/
structure AllAnswered (s : BondInquiryService ι) : Prop where
  found : ∀ e ∈ s.bondInquiry, s.getData e.inquiryId = some e
  answered : ∀ e ∈ s.bondInquiry, e.state ≠ .received

/-- **When the ids of the store are unique**: over any messages, exactly when no two received
    messages share one; and a well-formed file leaves everybody answered exactly when no two of its
    lines do. -/
theorem uniqueIds_iff (listeners : List ι) :
    (∀ msgs, (∀ pre, pre <+: msgs → ((BondInquiryService.run listeners pre).bondInquiry.map
        Inquiry.inquiryId).Nodup) ↔ (BondInquiryService.receivedIds msgs).Nodup) ∧
    ∀ content, (∀ line ∈ dataLines content, WellFormed line) →
      (AllAnswered (readFile acceptHeard (some content) (⟨[], listeners⟩, [])).state.1 ↔
        ((dataLines content).map fun line => (fields line)[0]?).Nodup) := by
  refine ⟨fun msgs => ?_, fun content hwf => ?_⟩
  · constructor
    · intro h
      rw [← (BondInquiryService.storeInv_run listeners msgs).ids]
      exact h msgs List.prefix_rfl
    · intro h pre hpre
      rw [(BondInquiryService.storeInv_run listeners pre).ids]
      exact h.sublist ((hpre.filter _).map _).sublist
  · obtain ⟨inquiries, hstate, hspells, hread⟩ := readFile_wellFormed listeners hwf
    rw [ids_of_spells hspells, List.nodup_map_iff (Option.some_injective _)]
    refine ⟨fun hall => ?_, fun hids => ?_⟩
    · by_contra hnot
      obtain ⟨pre, inquiry, post, hsplit, hids, hknown⟩ := exists_first_repeat hnot
      rw [hsplit] at hstate hread
      obtain ⟨heard, hrun⟩ := runAll_acceptHeard_repeated listeners hstate hids hknown
      rw [hread, hrun] at hall
      refine hall.answered { inquiry with price := 100 } ?_ (hstate inquiry (by simp))
      exact List.mem_append_right _ (List.mem_singleton_self _)
    · obtain ⟨s, hs, hdone⟩ := runAll_acceptHeard listeners hstate hids
      rw [hread, hs, hdone]
      rw [← ids_finished] at hids
      refine ⟨fun e he => ?_, fun e he => ?_⟩
      · obtain ⟨k, hk⟩ := List.mem_iff_getElem?.mp he
        exact find?_eq_getElem? hids hk
      · obtain ⟨e', -, rfl⟩ := List.mem_map.mp he
        exact nofun

/-- The theorem at the file of two lines. -/
theorem uniqueIds_iff_two :
    AllAnswered (readFile acceptHeard (some twoInquiries) (⟨[], ["report"]⟩, [])).state.1 ↔
      ((dataLines twoInquiries).map fun line => (fields line)[0]?).Nodup :=
  (uniqueIds_iff ["report"]).2 twoInquiries wellFormed_twoInquiries

/-- One id on two lines. -/
def oneIdTwice : String :=
  "h\nI1,912828M72,BUY,1000,0\nI1,912828N22,SELL,-5,99-001"

/-- The second line is entered, the lookup finds the first, and the process exits. -/
theorem oneIdTwice_unanswered :
    ((BondInquiryService.run ["report"] [
        ⟨"I1", Bond.ofCusip "912828M72", .buy, 1000, 0, .received⟩,
        ⟨"I1", Bond.ofCusip "912828N22", .sell, -5, 99, .received⟩]).bondInquiry.map
          Inquiry.inquiryId) = ["I1", "I1"] ∧
      (readFile acceptHeard (some oneIdTwice) (⟨[], ["report"]⟩, [])).state.1.bondInquiry =
        [⟨"I1", Bond.ofCusip "912828M72", .buy, 1000, 100, .done⟩,
          ⟨"I1", Bond.ofCusip "912828N22", .sell, -5, 100, .received⟩] ∧
      ¬ AllAnswered (readFile acceptHeard (some oneIdTwice) (⟨[], ["report"]⟩, [])).state.1 := by
  have hstore : (readFile acceptHeard (some oneIdTwice) (⟨[], ["report"]⟩, [])).state.1.bondInquiry =
      [⟨"I1", Bond.ofCusip "912828M72", .buy, 1000, 100, .done⟩,
        ⟨"I1", Bond.ofCusip "912828N22", .sell, -5, 100, .received⟩] := by decide +kernel
  refine ⟨by decide +kernel, hstore, fun h => ?_⟩
  have hanswered := h.answered
  rw [hstore] at hanswered
  exact hanswered _ (List.mem_cons_of_mem _ List.mem_cons_self) rfl

/-! ## 6. Any file -/

/-- The inquiries a service holds while its file is read. -/
def entered (s : BondInquiryService ι × List (ι × Inquiry)) : List Inquiry := s.1.bondInquiry

/-- **Only what the file says is entered**: so it is with every line that `ReadFile` gets to. -/
def EntersOnly (content : String) (listeners : List ι) : Prop :=
  EveryLine decode acceptHeard (TakesOnly entered Spells) (dataLines content) (⟨[], listeners⟩, [])

/-- Every line up to the first one whose quantity or price is no `long`, or whose id was there
    before, says an inquiry. -/
def SaysInquiries (content : String) : Prop :=
  Until (fun pre line => Throws (fields line) ∨
      (fields line)[0]? ∈ pre.map fun earlier => (fields earlier)[0]?)
    (fun line => (∃ inquiry, Spells line inquiry) ∨ Throws (fields line)) [] (dataLines content)

/-- The lines read so far, and the inquiries they said. -/
def ReadSoFar (listeners : List ι) (pre : List (List Char))
    (s : BondInquiryService ι × List (ι × Inquiry)) : Prop :=
  ∃ inquiries, AllDone listeners inquiries s ∧ List.Forall₂ Spells pre inquiries

/-- An inquiry is entered once, whatever becomes of it. -/
theorem acceptHeard_enters {listeners : List ι} {inquiries : List Inquiry} {inquiry : Inquiry}
    (hstate : inquiry.state = .received) {s : BondInquiryService ι × List (ι × Inquiry)}
    (h : AllDone listeners inquiries s) (line : List Char) :
    TakesOnly entered Spells line s (acceptHeard inquiry s) ↔ Spells line inquiry := by
  by_cases hknown : inquiry.inquiryId ∈ inquiries.map Inquiry.inquiryId
  · have hsame : Spells line { inquiry with price := 100 } ↔ Spells line inquiry :=
      spells_iff rfl rfl rfl rfl
    rw [acceptHeard_known hstate hknown h, ← hsame]
    refine takesOnly_one ?_ fun s' hstop => by cases hstop
    rw [h]
    rfl
  · have hsame : Spells line (finished inquiry) ↔ Spells line inquiry :=
      spells_iff rfl rfl rfl rfl
    obtain ⟨s', hs', hdone⟩ := acceptHeard_fresh hstate hknown h
    rw [hs', ← hsame]
    refine takesOnly_one ?_ fun s' hstop => by cases hstop
    rw [h, hdone]
    exact List.map_append

section AnyFile

variable {listeners : List ι} {pre : List (List Char)} {line : List Char}
  {s : BondInquiryService ι × List (ι × Inquiry)} (h : ReadSoFar listeners pre s)

include h

/-- A line does right if it says an inquiry or throws, and otherwise not. -/
theorem entersOnly_line :
    TakesOnly entered Spells line s (lineStep decode acceptHeard line s) ↔
      (∃ inquiry, Spells line inquiry) ∨ Throws (fields line) := by
  obtain ⟨inquiries, hdone, -⟩ := h
  rcases decode_cases (fields line) with
    ⟨inquiry, hthrows, he, hread⟩ | ⟨ht, why, hwhy, he⟩ | ⟨hthrows, hnone, he⟩
  · rw [lineStep_ok decode acceptHeard he, acceptHeard_enters hread.state hdone]
    constructor
    · exact fun h => Or.inl ⟨inquiry, h⟩
    · intro h
      obtain ⟨inquiry', hspells⟩ := h.resolve_right hthrows
      exact hspells.readFrom hread
  · rw [lineStep_error decode acceptHeard he]
    refine ⟨fun _ => Or.inr ht, fun _ => takesOnly_none rfl fun s' hstop => hwhy ?_⟩
    injection hstop
  · rw [lineStep_error decode acceptHeard he]
    refine ⟨fun h => absurd rfl (h.1 s), fun h => ?_⟩
    obtain ⟨inquiry, hspells⟩ := h.resolve_right hthrows
    obtain ⟨price, hp⟩ := hspells.price
    rw [hp] at hnone
    cases hnone

/-- A line that does right is the last one exactly if it throws or repeats an id. -/
theorem entersOnly_goes (hok : (∃ inquiry, Spells line inquiry) ∨ Throws (fields line)) :
    ((Throws (fields line) ∨ (fields line)[0]? ∈ pre.map fun earlier => (fields earlier)[0]?) ∧
      ∀ s', lineStep decode acceptHeard line s ≠ .done s') ∨
    (¬ (Throws (fields line) ∨ (fields line)[0]? ∈ pre.map fun earlier => (fields earlier)[0]?) ∧
      ∃ s', lineStep decode acceptHeard line s = .done s' ∧
        ReadSoFar listeners (pre ++ [line]) s') := by
  obtain ⟨inquiries, hdone, hspells⟩ := h
  rcases decode_cases (fields line) with
    ⟨inquiry, hthrows, he, hread⟩ | ⟨ht, why, -, he⟩ | ⟨hthrows, hnone, -⟩
  · obtain ⟨inquiry', hsays⟩ := hok.resolve_right hthrows
    have hsays := hsays.readFrom hread
    have hknown : (fields line)[0]? ∈ pre.map (fun earlier => (fields earlier)[0]?) ↔
        inquiry.inquiryId ∈ inquiries.map Inquiry.inquiryId := by
      rw [ids_of_spells hspells, hread.inquiryId,
        List.mem_map_of_injective (Option.some_injective _)]
    rw [lineStep_ok decode acceptHeard he, hknown]
    by_cases hmem : inquiry.inquiryId ∈ inquiries.map Inquiry.inquiryId
    · refine Or.inl ⟨Or.inr hmem, fun s' hs' => ?_⟩
      rw [acceptHeard_known hread.state hmem hdone] at hs'
      cases hs'
    · obtain ⟨s', hs', hdone'⟩ := acceptHeard_fresh hread.state hmem hdone
      refine Or.inr ⟨not_or.mpr ⟨hthrows, hmem⟩, s', hs', inquiries ++ [inquiry], hdone', ?_⟩
      exact List.rel_append hspells (.cons hsays .nil)
  · exact Or.inl ⟨Or.inl ht, lineStep_ne_done decode acceptHeard he s⟩
  · obtain ⟨inquiry, hsays⟩ := hok.resolve_right hthrows
    obtain ⟨price, hp⟩ := hsays.price
    rw [hp] at hnone
    cases hnone

end AnyFile

/-- **When only what an inquiry file says is entered.** -/
theorem entersOnly_iff (content : String) (listeners : List ι) :
    EntersOnly content listeners ↔ SaysInquiries content := by
  unfold EntersOnly SaysInquiries
  rw [everyLine_iff]
  refine everyStep_iff (J := ReadSoFar listeners) (dataLines content) ?_ ?_ [] ⟨[], rfl, .nil⟩
  · intro pre line s _ h
    exact entersOnly_line h
  · intro pre line s _ h hok
    exact entersOnly_goes h hok

end BondInquiryConnector

/-- **When only what the text says is booked**, of a trade file and of an inquiry file. -/
theorem only_what_files_say_iff {ι : Type} (content : String) (trades : BondTradeBookingService ι)
    (listeners : List ι) :
    (BondTradeBookingConnector.BooksOnly content trades ↔
      BondTradeBookingConnector.SaysTrades content) ∧
    (BondInquiryConnector.EntersOnly content listeners ↔
      BondInquiryConnector.SaysInquiries content) :=
  ⟨BondTradeBookingConnector.booksOnly_iff content trades,
    BondInquiryConnector.entersOnly_iff content listeners⟩

/-- A sale in lower case, with a letter behind its quantity. -/
def lowerCase : String := "h\n912828M72,T1,TRSY1,5x,sell"

/-- A purchase in lower case. -/
def lowerCaseInquiry : String := "h\nI1,912828M72,buy,5,0"

/-- A blank line behind the header. -/
def blankLine : String := "h\n\n"

/-- A sale that is not spelled `SELL` is booked as a purchase, of the 5 in front of the letter. -/
theorem not_booksOnly_lowerCase :
    ¬ BondTradeBookingConnector.BooksOnly lowerCase (⟨[], []⟩ : BondTradeBookingService String) := by
  have hlines : dataLines lowerCase = ["912828M72,T1,TRSY1,5x,sell".toList] := by decide +kernel
  have hfields : fields "912828M72,T1,TRSY1,5x,sell".toList =
      ["912828M72", "T1", "TRSY1", "5x", "sell"] := by decide +kernel
  have hnumber : stol "5x".toList = .ok 5 := by decide +kernel
  intro h
  rw [BondTradeBookingConnector.booksOnly_iff, BondTradeBookingConnector.SaysTrades, hlines] at h
  rcases h.1 with ⟨trade, hspells⟩ | hthrows
  · have hside := hspells.side
    rw [hfields] at hside
    cases hs : trade.side <;> rw [hs] at hside <;> exact absurd hside (by decide)
  · rw [hfields] at hthrows
    exact BondTradeBookingConnector.not_throws rfl hnumber hthrows

/-- Both readers take what is not in the file: the opposite of a side they do not know, and the
    fields of a blank line. -/
theorem files_say_otherwise :
    (BondTradeBookingConnector.readFile BondTradeBookingConnector.book (some lowerCase)
        (⟨[], []⟩ : BondTradeBookingService String)).state.tradesBook =
      [⟨Bond.ofCusip "912828M72", "T1", "TRSY1", 5, .buy⟩] ∧
    (BondInquiryConnector.readFile BondInquiryConnector.acceptHeard (some lowerCaseInquiry)
        ((⟨[], []⟩, []) : BondInquiryService String × List (String × Inquiry))).state.1.bondInquiry =
      [⟨"I1", Bond.ofCusip "912828M72", .sell, 5, 100, .done⟩] ∧
    ¬ BondTradeBookingConnector.BooksOnly lowerCase (⟨[], []⟩ : BondTradeBookingService String) ∧
    ¬ BondTradeBookingConnector.BooksOnly blankLine (⟨[], []⟩ : BondTradeBookingService String) ∧
    ¬ BondInquiryConnector.EntersOnly blankLine ([] : List String) := by
  have hlines : dataLines blankLine = [[]] := by decide +kernel
  refine ⟨by decide +kernel, by decide +kernel, not_booksOnly_lowerCase, fun h => ?_, fun h => ?_⟩
  · rw [BondTradeBookingConnector.BooksOnly, hlines] at h
    exact h.first.1 _ rfl
  · rw [BondInquiryConnector.EntersOnly, hlines] at h
    exact h.first.1 _ rfl

end BondTrading
