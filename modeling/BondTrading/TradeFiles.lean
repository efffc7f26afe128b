/-
  File:      BondTrading/TradeFiles.lean
  Subject:   WHOLE TRADE FILES: what is written is read back, and what is read is what was written.

  * `decode_cases` -- what the reader makes of any record: a trade, the exception of its quantity, or
    a read past its end;
  * `TradeRow`, `fileText` -- trades that can be written, and the files they are written to;
    `readFile_fileText` -- reading such a file passes exactly its trades on, in order;
  * `Spells` -- a line says a trade, word for word; `booksOnly_iff` -- the files of which the reader
    takes nothing else.
-/
import BondTrading.TradeBooking

namespace BondTrading

open Cxx

namespace BondTradeBookingConnector

/-! ## 1. One record -/

/-- The quantity of a record is no `long`: the reader throws, and reads no further. -/
def Throws (record : List String) : Prop :=
  ∃ quantity why, record[3]? = some quantity ∧ stol quantity.toList = .error why

theorem not_throws {record : List String} {quantity : String} {n : ℤ}
    (hq : record[3]? = some quantity) (hn : stol quantity.toList = .ok n) : ¬ Throws record := by
  intro hthrows
  obtain ⟨quantity', why, hq', hwhy⟩ := hthrows
  rw [← Option.some.inj (hq.symm.trans hq'), hn] at hwhy
  cases hwhy

/-- **What the reader makes of a record**: a trade, an exception, or a read past its end. -/
theorem decode_cases (record : List String) :
    (∃ trade, ¬ Throws record ∧ decode record = .ok trade) ∨
    (Throws record ∧ ∃ why, why ≠ .undefined ∧ decode record = .error why) ∨
    (¬ Throws record ∧ record[4]? = none ∧ decode record = .error .undefined) := by
  match record with
  | [] => exact Or.inr (Or.inr ⟨fun ⟨_, _, h, _⟩ => (by cases h), rfl, rfl⟩)
  | [_] => exact Or.inr (Or.inr ⟨fun ⟨_, _, h, _⟩ => (by cases h), rfl, rfl⟩)
  | [_, _] => exact Or.inr (Or.inr ⟨fun ⟨_, _, h, _⟩ => (by cases h), rfl, rfl⟩)
  | [_, _, _] => exact Or.inr (Or.inr ⟨fun ⟨_, _, h, _⟩ => (by cases h), rfl, rfl⟩)
  | cusip :: id :: book :: quantity :: rest =>
      cases hq : stol quantity.toList with
      | error why =>
          refine Or.inr (Or.inl ⟨⟨quantity, why, rfl, hq⟩, why, ?_, ?_⟩)
          · intro he
            rw [he] at hq
            exact stoInteger_ne_undefined hq
          · simp [decode, fieldAt, hq, bind, Except.bind]
      | ok n =>
          have hno : ¬ Throws (cusip :: id :: book :: quantity :: rest) := not_throws rfl hq
          cases rest with
          | nil =>
              refine Or.inr (Or.inr ⟨hno, rfl, ?_⟩)
              simp [decode, fieldAt, hq, bind, Except.bind]
          | cons side rest => exact Or.inl ⟨_, hno, decode_fields rfl rfl rfl rfl rfl hq⟩

/-! ## 2. What a line says -/

/-- **The line says the trade**: CUSIP, id, book, quantity and side, each in a field of its own. -/
structure Spells (line : List Char) (trade : Trade) : Prop where
  product : ∃ cusip, (fields line)[0]? = some cusip ∧ trade.product = Bond.ofCusip cusip
  tradeId : (fields line)[1]? = some trade.tradeId
  book : (fields line)[2]? = some trade.book
  quantity : ∃ text, (fields line)[3]? = some text ∧ IntegerText text.toList trade.quantity
  side : (fields line)[4]? = some trade.side.text

/-- The reader's test of the first character is right on the two texts of a side. -/
theorem side_text (side : Side) :
    (if side.text.toList.head? = some 'S' then Side.sell else Side.buy) = side := by
  cases side <;> decide

/-- A line that says a trade is read as that trade, unless its number does not fit. -/
theorem Spells.decode_eq {line : List Char} {trade : Trade} (h : Spells line trade)
    (hthrows : ¬ Throws (fields line)) : decode (fields line) = .ok trade := by
  obtain ⟨cusip, hc, hproduct⟩ := h.product
  obtain ⟨text, htext, hinteger⟩ := h.quantity
  cases hn : stol text.toList with
  | error why => exact absurd ⟨text, why, htext, hn⟩ hthrows
  | ok n =>
      rw [decode_fields hc h.tradeId h.book htext h.side hn, stol_integerText hinteger hn,
        side_text, ← hproduct]

/-! ## 3. Writing and reading -/

/-- A trade that can be written: no comma and no line end in its texts, a `long` for its quantity. -/
structure TradeRow where
  cusip : String
  tradeId : String
  book : String
  quantity : ℤ
  side : Side
  clean : ∀ text ∈ [cusip, tradeId, book], ',' ∉ text.toList ∧ '\n' ∉ text.toList
  isLong : -9223372036854775808 ≤ quantity ∧ quantity ≤ 9223372036854775807

namespace TradeRow

/-- The trade the row is about. -/
def trade (row : TradeRow) : Trade :=
  ⟨Bond.ofCusip row.cusip, row.tradeId, row.book, row.quantity, row.side⟩

@[simp] theorem cusip_trade (row : TradeRow) : row.trade.cusip = row.cusip :=
  Bond.productId_ofCusip row.cusip

/-- The five fields. -/
def texts (row : TradeRow) : List String :=
  [row.cusip, row.tradeId, row.book, toString row.quantity, row.side.text]

/-- The line `CUSIP,id,book,quantity,side`. -/
def line (row : TradeRow) : List Char := List.intercalate [','] (row.texts.map String.toList)

/-- No field holds a comma or a line end. -/
theorem texts_clean (row : TradeRow) : ∀ text ∈ row.texts, ',' ∉ text.toList ∧ '\n' ∉ text.toList := by
  have hquantity := longText_toString row.isLong.1 row.isLong.2
  intro text htext
  have hmem : text ∈ [row.cusip, row.tradeId, row.book] ∨ text = toString row.quantity ∨
      text = row.side.text := by
    simpa [texts, or_assoc] using htext
  rcases hmem with hmem | rfl | rfl
  · exact row.clean text hmem
  · exact ⟨hquantity.notMem (by decide) (by decide), hquantity.notMem (by decide) (by decide)⟩
  · cases row.side <;> decide

theorem notMem_line (row : TradeRow) : '\n' ∉ row.line := by
  intro hmem
  rcases mem_intercalate hmem with hmem | ⟨text, htext, hmem⟩
  · cases hmem
  · obtain ⟨t, ht, rfl⟩ := List.mem_map.mp htext
    exact (row.texts_clean t ht).2 hmem

/-- **The line splits into its fields.** -/
theorem fields_line (row : TradeRow) : fields row.line = row.texts := by
  have hsplit : getlines ',' row.line = row.texts.map String.toList := by
    refine getlines_intercalate ?_ ?_
    · intro v hv
      obtain ⟨text, htext, rfl⟩ := List.mem_map.mp hv
      exact (row.texts_clean text htext).1
    · show some row.side.text.toList ≠ some []
      cases row.side <;> decide
  rw [fields, hsplit, List.map_map]
  exact List.map_id'' (fun text => String.ofList_toList) _

/-- **The line says the trade.** -/
theorem spells_line (row : TradeRow) : Spells row.line row.trade := by
  have hlong := longText_toString row.isLong.1 row.isLong.2
  constructor <;> rw [fields_line]
  case product => exact ⟨row.cusip, rfl, rfl⟩
  case tradeId => rfl
  case book => rfl
  case quantity => exact ⟨toString row.quantity, rfl, hlong.integerText⟩
  case side => rfl

theorem decode_line (row : TradeRow) : decode (fields row.line) = .ok row.trade := by
  refine row.spells_line.decode_eq ?_
  rw [fields_line]
  exact not_throws rfl (stol_longText (longText_toString row.isLong.1 row.isLong.2))

end TradeRow

/-- A file: a header and one line per row, the last of which is ended or not. -/
def fileText (header : String) (rows : List TradeRow) (ended : Bool) : String :=
  String.ofList (List.intercalate ['\n'] (header.toList :: rows.map TradeRow.line) ++
    if ended then ['\n'] else [])

/-- Its data lines are those of the rows. -/
theorem dataLines_fileText {header : String} (hheader : '\n' ∉ header.toList)
    (rows : List TradeRow) (ended : Bool) :
    dataLines (fileText header rows ended) = rows.map TradeRow.line := by
  have hclean : ∀ v ∈ header.toList :: rows.map TradeRow.line, '\n' ∉ v := by
    intro v hv
    rcases List.mem_cons.mp hv with rfl | hv
    · exact hheader
    · obtain ⟨row, -, rfl⟩ := List.mem_map.mp hv
      exact row.notMem_line
  rw [dataLines_eq, fileText, String.toList_ofList]
  cases ended with
  | true =>
      rw [if_pos rfl, intercalate_ended '\n' (List.cons_ne_nil _ _), getlines_unlines hclean]
      rfl
  | false =>
      rw [if_neg Bool.false_ne_true, List.append_nil]
      by_cases hlast : (header.toList :: rows.map TradeRow.line).getLast? = some []
      · -- then there is no row, and the header is empty
        cases rows using List.reverseRecOn with
        | nil =>
            obtain hnil : header.toList = [] := by simpa using hlast
            rw [hnil]
            rfl
        | append_singleton rows row =>
            have hline : row.line = [] := by
              rw [List.map_append, List.map_singleton, ← List.cons_append,
                List.getLast?_concat] at hlast
              exact Option.some.inj hlast
            have hfields := row.fields_line
            rw [hline] at hfields
            cases hfields
      · rw [getlines_intercalate hclean hlast]
        rfl

/-- **A file of trades is read back**: whatever is done with a trade, reading the file does it with
    each of its trades once, in order. -/
theorem readFile_fileText {header : String} (hheader : '\n' ∉ header.toList)
    (rows : List TradeRow) (ended : Bool) {σ : Type} (onMessage : Trade → σ → Outcome σ) (s : σ) :
    readFile onMessage (some (fileText header rows ended)) s =
      runAll onMessage (rows.map TradeRow.trade) s := by
  have hdecode : List.Forall₂ (fun line trade => decode (fields line) = .ok trade)
      (rows.map TradeRow.line) (rows.map TradeRow.trade) := by
    rw [List.forall₂_map_left_iff, List.forall₂_map_right_iff, List.forall₂_same]
    exact fun row _ => row.decode_line
  show readLines decode onMessage [] (dataLines _) s = _
  rw [dataLines_fileText hheader]
  exact readLines_eq_runAll decode onMessage hdecode s

/-- A sale of a negative quantity, with an empty book and a blank in its id. -/
def oddRow : TradeRow where
  cusip := "912828M72"
  tradeId := "T 1"
  book := ""
  quantity := -5
  side := .sell
  clean := by decide
  isLong := by decide

/-- The theorem at a file of that trade two times, its last line not ended. -/
theorem readFile_fileText_odd :
    readFile (fun trade trades => .done (trades ++ [trade]))
        (some (fileText "CUSIP, Trade_ID, Book, Quantity, Side" [oddRow, oddRow] false)) [] =
      runAll (fun trade trades => .done (trades ++ [trade]))
        ([oddRow, oddRow].map TradeRow.trade) ([] : List Trade) :=
  readFile_fileText (by decide) [oddRow, oddRow] false (fun trade trades => .done (trades ++ [trade]))
    []

/-! ## 4. Reading any file -/

/-- What `ReadFile` does with a trade: `OnMessage`. -/
def book {ι : Type} (trade : Trade) (s : BondTradeBookingService ι) :
    Outcome (BondTradeBookingService ι) :=
  .done (s.onMessage trade).1

/-- **Only what the file says is booked**: so it is with every line that `ReadFile` gets to. -/
def BooksOnly {ι : Type} (content : String) (s : BondTradeBookingService ι) : Prop :=
  EveryLine decode book (TakesOnly BondTradeBookingService.tradesBook Spells) (dataLines content) s

/-- Every line up to the first one whose quantity is no `long` says a trade. -/
def SaysTrades (content : String) : Prop :=
  Until (fun _ line => Throws (fields line))
    (fun line => (∃ trade, Spells line trade) ∨ Throws (fields line)) [] (dataLines content)

section AnyFile

variable {ι : Type} (line : List Char) (s : BondTradeBookingService ι)

/-- A line does right if it says a trade or throws, and otherwise not. -/
theorem takesOnly_iff :
    TakesOnly BondTradeBookingService.tradesBook Spells line s (lineStep decode book line s) ↔
      (∃ trade, Spells line trade) ∨ Throws (fields line) := by
  rcases decode_cases (fields line) with
    ⟨trade, hthrows, he⟩ | ⟨ht, why, hwhy, he⟩ | ⟨hthrows, hnone, he⟩
  · have hstored : TakesOnly BondTradeBookingService.tradesBook Spells line s
        (lineStep decode book line s) ↔ Spells line trade := by
      rw [lineStep_ok decode book he]
      exact takesOnly_one rfl fun s' hstop => by cases hstop
    rw [hstored]
    constructor
    · exact fun h => Or.inl ⟨trade, h⟩
    · intro h
      obtain ⟨trade', hspells⟩ := h.resolve_right hthrows
      have hsame := hspells.decode_eq hthrows
      rw [he] at hsame
      exact (Except.ok.inj hsame) ▸ hspells
  · rw [lineStep_error decode book he]
    refine ⟨fun _ => Or.inr ht, fun _ => takesOnly_none rfl fun s' hstop => hwhy ?_⟩
    injection hstop
  · rw [lineStep_error decode book he]
    refine ⟨fun h => absurd rfl (h.1 s), fun h => ?_⟩
    obtain ⟨trade, hspells⟩ := h.resolve_right hthrows
    rw [hspells.side] at hnone
    cases hnone

/-- A line that does right is the last one exactly if it throws. -/
theorem lineStep_goes (hok : (∃ trade, Spells line trade) ∨ Throws (fields line)) :
    (Throws (fields line) ∧ ∀ s', lineStep decode book line s ≠ .done s') ∨
      (¬ Throws (fields line) ∧ ∃ s', lineStep decode book line s = .done s') := by
  rcases decode_cases (fields line) with
    ⟨trade, hthrows, he⟩ | ⟨ht, why, -, he⟩ | ⟨hthrows, hnone, -⟩
  · exact Or.inr ⟨hthrows, (s.onMessage trade).1, lineStep_ok decode book he s⟩
  · exact Or.inl ⟨ht, lineStep_ne_done decode book he s⟩
  · obtain ⟨trade, hspells⟩ := hok.resolve_right hthrows
    rw [hspells.side] at hnone
    cases hnone

end AnyFile

/-- **When only what a trade file says is booked.** -/
theorem booksOnly_iff {ι : Type} (content : String) (s : BondTradeBookingService ι) :
    BooksOnly content s ↔ SaysTrades content := by
  unfold BooksOnly SaysTrades
  rw [everyLine_iff]
  refine everyStep_iff (J := fun _ _ => True) (dataLines content) ?_ ?_ [] trivial
  · intro pre line s _ _
    exact takesOnly_iff line s
  · intro pre line s _ _ hok
    refine (lineStep_goes line s hok).imp_right ?_
    rintro ⟨hthrows, s', hs'⟩
    exact ⟨hthrows, s', hs', trivial⟩

end BondTradeBookingConnector

end BondTrading
