/-
  File:      BondTrading/ReportFiles.lean
  Subject:   WHOLE REPORTS AS CHARACTERS, and when a reader that takes them line by line, and every line
             word by word, finds again what was published.

  * `contentText`, `textRows` -- a file as characters, and what such a reader finds behind its first
    line; `textRows_iff` -- it finds the texts of all cells exactly when in every row they stay apart;
  * `columns_readBack_iff`, `main_texts` -- executions.txt, streaming.txt and allinquires.txt, whose
    fields all stand behind `setw`;
  * `main_position_text`, `main_risk_text` -- position.txt, and risk.txt with its blocks of lines.

  In the first three there are no dates and no floating-point numbers, so the date library, the coupons
  and the format flag of the stream do not matter. All are about what a run of `main` leaves, in terms
  of what it has taken from its files, if none of its sums of `long`s overflows.
-/
import BondTrading.ReportText
import BondTrading.Exposure

namespace BondTrading

open Cxx

/-! ## 1. Files as characters -/

section Text

variable (dateText : Option Date → String) (garbage : ℚ) (fixed : Bool)

/-- The characters of a file. -/
def contentText (content : List Item) : List Char :=
  setCells ' ' (content.map (Item.cell dateText garbage fixed))

/-- The words of every line but the first. -/
def textRows (content : List Item) : List (List (List Char)) :=
  (getlines '\n' (contentText dateText garbage fixed content)).tail.map (words isSpace)

/-- The characters of a row. -/
def rowText (row : List Item) : List Char :=
  setCells ' ' (row.map (Item.cell dateText garbage fixed))

theorem contentText_append (content content' : List Item) :
    contentText dateText garbage fixed (content ++ content') =
      contentText dateText garbage fixed content ++ contentText dateText garbage fixed content' := by
  unfold contentText setCells
  rw [List.map_append, List.flatMap_append]

theorem contentText_unlines (rows : List (List Item)) :
    contentText dateText garbage fixed (unlines .endl rows) =
      unlines '\n' (rows.map (rowText dateText garbage fixed)) := by
  induction rows with
  | nil => rfl
  | cons row rows ih =>
      show contentText dateText garbage fixed ((row ++ [.endl]) ++ unlines .endl rows) =
        (rowText dateText garbage fixed row ++ ['\n']) ++
          unlines '\n' (rows.map (rowText dateText garbage fixed))
      rw [contentText_append, contentText_append, ih]
      rfl

/-- There is no line break in a heading. -/
theorem newline_notMem_headings (report : Report) :
    '\n' ∉ rowText dateText garbage fixed report.headings := by
  have hcells : ∀ item ∈ report.headings, ∃ width text, item = .text width text ∧
      '\n' ∉ text.toList := by
    cases report <;> simp [Report.headings, Item.text, Item.gap]
  intro hmem
  obtain ⟨cell, hcell, hmem⟩ := List.mem_flatMap.mp hmem
  obtain ⟨item, hitem, rfl⟩ := List.mem_map.mp hcell
  obtain ⟨width, text, rfl, hfree⟩ := hcells item hitem
  rcases List.mem_append.mp hmem with hmem | hmem
  · exact absurd (List.eq_of_mem_replicate hmem) (by decide)
  · exact hfree hmem

/-- **A report reads back** exactly when the cells of each of its rows stay apart. -/
theorem textRows_iff (report : Report) {rows : List (List Item)} {cells : List (List (Cell Char))}
    (hcells : rows.map (rowText dateText garbage fixed) = cells.map (setCells ' ')) :
    textRows dateText garbage fixed (unlines .endl (report.headings :: rows)) =
        cells.map (List.map Cell.text) ↔ ∀ row ∈ cells, Apart isSpace row := by
  unfold textRows
  rw [contentText_unlines, List.map_cons, unlines, List.flatMap_cons, List.append_assoc]
  show (getlines '\n' (rowText dateText garbage fixed report.headings ++
    '\n' :: unlines '\n' (rows.map (rowText dateText garbage fixed)))).tail.map _ = _ ↔ _
  rw [getlines_append (newline_notMem_headings dateText garbage fixed report), List.tail_cons, hcells]
  exact words_rows_iff (by decide) (by decide) (by decide) cells

end Text

/-! ## 2. Fields and their columns -/

/-- The text is one word, and leaves a blank in its column; what counts are the bytes. -/
def FitsIn (width : Nat) (text : List Char) : Prop := IsWord isSpace text ∧ byteLength text < width

instance (width : Nat) (text : List Char) : Decidable (FitsIn width text) := by
  unfold FitsIn
  infer_instance

/-- A key, and fields behind `setw`. -/
theorem apart_fields_iff (key : ℤ) (fields : List (Nat × List Char)) :
    Apart isSpace (setw 5 (toString key).toList :: fields.map fun field => setw field.1 field.2) ↔
      ∀ field ∈ fields, FitsIn field.1 field.2 := by
  unfold Apart
  simp only [List.forall_mem_cons, List.tail_cons, List.forall_mem_map, setw_blanks_pos_iff]
  constructor
  · rintro ⟨⟨-, hwords⟩, hblanks⟩ field hfield
    exact ⟨hwords field hfield, hblanks field hfield⟩
  · intro h
    exact ⟨⟨isWord_toString key, fun field hfield => (h field hfield).1⟩, fun field hfield =>
      (h field hfield).2⟩

/-- A whole number is always a word. -/
theorem fitsIn_toString_iff (n : ℤ) {w : Nat} (hw : 2 ≤ w) :
    FitsIn (w + 1) (toString n).toList ↔ -(10 : ℤ) ^ (w - 1) < n ∧ n < (10 : ℤ) ^ w := by
  rw [FitsIn, Nat.lt_succ_iff, byteLength_toString_le_iff n hw]
  exact and_iff_right (isWord_toString n)

/-- The rows of a report with these columns, under the keys 1, 2, 3, … -/
def keyed (records : List (List (Nat × List Char))) : List (List (List Char)) :=
  (records.zipIdx 1).map fun entry =>
    (toString (entry.2 : ℤ)).toList :: entry.1.map Prod.snd

/-- **A report whose fields all stand behind `setw`** reads back exactly when they fit their
    columns. -/
theorem columns_readBack_iff {α : Type} (dateText : Option Date → String) (garbage : ℚ)
    (fixed : Bool) (report : Report) {publish : α → List Item} {columns : α → List (Nat × List Char)}
    (hsingle : ∀ data, SingleLine (publish data))
    (hcolumns : ∀ data key, (rowOf (publish data) key).map (Item.cell dateText garbage fixed) =
      setw 5 (toString key).toList :: (columns data).map fun field => setw field.1 field.2)
    (records : List α) :
    textRows dateText garbage fixed (contentOf report (records.map publish)) =
        keyed (records.map columns) ↔
      ∀ data ∈ records, ∀ field ∈ columns data, FitsIn field.1 field.2 := by
  -- the cells of the rows
  let cells := (records.zipIdx 1).map fun entry =>
    setw 5 (toString (entry.2 : ℤ)).toList ::
      (columns entry.1).map fun field => setw field.1 field.2
  have hcontent : contentOf report (records.map publish) = unlines .endl (report.headings ::
      (records.zipIdx 1).map fun entry => rowOf (publish entry.1) entry.2) := by
    rw [contentOf, report_eq_unlines report fun p hp => by
      obtain ⟨data, -, rfl⟩ := List.mem_map.mp hp
      exact hsingle data, List.zipIdx_map, List.map_map]
    rfl
  have htexts : keyed (records.map columns) = cells.map (List.map Cell.text) := by
    unfold keyed
    rw [List.zipIdx_map, List.map_map, List.map_map]
    refine List.map_congr_left fun entry _ => ?_
    simp [setw, Function.comp_def]
  rw [hcontent, htexts, textRows_iff]
  · have hrecords : (records.zipIdx 1).map Prod.fst = records := List.zipIdx_map_fst 1 records
    rw [List.forall_mem_map, ← hrecords, List.forall_mem_map, hrecords]
    simp only [apart_fields_iff]
  · rw [List.map_map, List.map_map]
    refine List.map_congr_left fun entry _ => ?_
    simp only [Function.comp_apply, rowText, hcolumns]

/-! ## 3. The three reports -/

/-- The fields that `Publish` inserts for an order, with the widths of their columns. -/
def executionColumns (data : ExecutionOrder) : List (Nat × List Char) :=
  [(15, data.product.productId.toList), (10, (pricingSideOutput data.side).toList),
    (10, data.orderId.toList), (13, (orderTypeOutput data.orderType).toList),
    (10, (fractionalBondPrice data.price).toList), (18, (toString data.visibleQuantity).toList),
    (18, (toString data.hiddenQuantity).toList), (18, data.parentOrderId.toList),
    (15, "FALSE".toList)]

def streamingColumns (data : PriceStream) : List (Nat × List Char) :=
  [(15, data.product.productId.toList), (15, (fractionalBondPrice data.bidOrder.price).toList),
    (15, (toString data.bidOrder.visibleQuantity).toList),
    (15, (fractionalBondPrice data.offerOrder.price).toList),
    (15, (toString data.offerOrder.visibleQuantity).toList)]

def inquiryColumns (data : Inquiry) : List (Nat × List Char) :=
  [(13, data.inquiryId.toList), (15, data.product.productId.toList),
    (10, (sideOutput data.side).toList), (15, (toString data.quantity).toList),
    (15, (fractionalBondPrice data.price).toList), (10, (stateOutput data.state).toList)]

theorem castInt_bounds (q : ℚ) : -2147483648 ≤ castInt q ∧ castInt q ≤ 2147483647 := by
  unfold castInt
  split_ifs with h
  · exact h
  · decide

/-- The characters of a written price: a whole number, a dash, and perhaps a zero. -/
theorem toList_fractionalBondPrice (price : ℚ) :
    ∃ tail, (fractionalBondPrice price).toList =
        (toString (castInt (truncate price : ℤ))).toList ++ '-' :: tail ∧
      (tail = [] ∨ tail = ['0']) := by
  unfold fractionalBondPrice
  simp only
  split_ifs
  · exact ⟨['0'], by simp, Or.inr rfl⟩
  · exact ⟨[], by simp, Or.inl rfl⟩

theorem isWord_fractionalBondPrice (price : ℚ) :
    IsWord isSpace (fractionalBondPrice price).toList := by
  obtain ⟨tail, htext, htail⟩ := toList_fractionalBondPrice price
  rw [htext]
  refine (isWord_toString _).append ?_
  rcases htail with rfl | rfl <;> decide

/-- **A written price always fits 15 characters**, whatever the price. -/
theorem fitsIn_fractionalBondPrice (price : ℚ) : FitsIn 15 (fractionalBondPrice price).toList := by
  refine ⟨isWord_fractionalBondPrice price, ?_⟩
  obtain ⟨tail, htext, htail⟩ := toList_fractionalBondPrice price
  obtain ⟨hlo, hhi⟩ := castInt_bounds (truncate price : ℤ)
  have hdigits := (byteLength_toString_le_iff (castInt (truncate price : ℤ)) (w := 11) (by decide)).mpr
    ⟨by omega, by omega⟩
  have hlength : byteLength ('-' :: tail) ≤ 2 := by
    rcases htail with rfl | rfl <;> decide
  rw [htext, byteLength_append]
  omega

/-- **The row of a price stream** that goes around a price. -/
theorem streamFor_fits_iff (price : Price) :
    (∀ field ∈ streamingColumns (BondAlgoStreamingService.streamFor price),
        FitsIn field.1 field.2) ↔ FitsIn 15 price.product.productId.toList := by
  have hquantity : FitsIn 15 (toString (10000000 : ℤ)).toList := by decide
  simp only [streamingColumns, List.forall_mem_cons, fitsIn_fractionalBondPrice,
    BondAlgoStreamingService.streamFor, hquantity]
  simp

/-- **The row of an inquiry** as the service leaves it. -/
theorem finished_fits_iff (inquiry : Inquiry) :
    (∀ field ∈ inquiryColumns (BondInquiryConnector.finished inquiry), FitsIn field.1 field.2) ↔
      FitsIn 13 inquiry.inquiryId.toList ∧ FitsIn 15 inquiry.product.productId.toList ∧
        -(10 : ℤ) ^ 13 < inquiry.quantity ∧ inquiry.quantity < (10 : ℤ) ^ 14 := by
  have hside : FitsIn 10 (sideOutput inquiry.side).toList := by
    cases inquiry.side <;> decide
  have hstate : FitsIn 10 (stateOutput .done).toList := by decide
  rw [← fitsIn_toString_iff inquiry.quantity (w := 14) (by decide)]
  simp only [inquiryColumns, List.forall_mem_cons, fitsIn_fractionalBondPrice,
    BondInquiryConnector.finished, hside, hstate]
  simp

/-! ## 4. The algorithm's orders -/

/-- The order for a book that the reader has made. -/
theorem orderFor_bookAround (earlier : List OrderBook) (product : Bond) (midPrice : ℚ) :
    orderFor earlier (BondMarketDataConnector.bookAround product midPrice) =
      [⟨Bond.ofCusip product.productId,
        turn earlier (BondMarketDataConnector.bookAround product midPrice),
        "T" ++ toString (int32 (earlier.length + 1)), .market, midPrice, 10000000, 0, "NULL",
        false⟩] := by
  obtain ⟨level, hlevel, hhead⟩ := BondAlgoExecutionService.opposed_ok
    (BondMarketDataConnector.bookAround_twoSided product midPrice)
    (turn earlier (BondMarketDataConnector.bookAround product midPrice))
  have hquantity : level.quantity = 10000000 := by
    refine (bookAround_offers product midPrice).quantity level ?_
    split_ifs at hhead
    · exact Or.inr hhead
    · exact Or.inl hhead
  have hmem : level ∈ (BondMarketDataConnector.bookAround product midPrice).bidStack ++
      (BondMarketDataConnector.bookAround product midPrice).offerStack := by
    rw [List.mem_append]
    split_ifs at hhead
    · exact Or.inr (List.mem_of_mem_head? hhead)
    · exact Or.inl (List.mem_of_mem_head? hhead)
  rw [orderFor, hlevel]
  show [(⟨_, _, _, .market, level.price, level.quantity, 0, "NULL", false⟩ : ExecutionOrder)] = _
  rw [hquantity, BondMarketDataConnector.bookAround_price hmem]
  rfl

/-- What a book must be like for the row of its order. -/
def BookFits (book : OrderBook) : Prop :=
  FitsIn 15 book.cusip.toList ∧
    ∀ midPrice, book.mid = some midPrice → FitsIn 10 (fractionalBondPrice midPrice).toList

instance (book : OrderBook) : Decidable (BookFits book) :=
  decidable_of_iff (FitsIn 15 book.cusip.toList ∧
      (book.mid.all fun midPrice => decide (FitsIn 10 (fractionalBondPrice midPrice).toList)) = true)
    (and_congr_right fun _ => by simp [Option.all_eq_true])

/-- An order id fits as long as its number has eight digits. -/
theorem fitsIn_orderId_iff {n : Nat} (hn : n < 2147483648) :
    FitsIn 10 ("T" ++ toString (int32 n)).toList ↔ n < 100000000 := by
  have hint : int32 n = n := int32_eq (by omega) (by omega)
  have hword : IsWord isSpace ("T" ++ toString (n : ℤ)).toList := by
    rw [String.toList_append]
    exact IsWord.append (by decide) (isWord_toString n)
  have hdigits := byteLength_toString_le_iff (n : ℤ) (w := 8) (by decide)
  rw [hint, FitsIn, and_iff_right hword, String.toList_append, byteLength_append]
  show 1 + byteLength (toString (n : ℤ)).toList < 10 ↔ _
  omega

/-- **The row of an order** for a book that the reader has made. -/
theorem order_fits_iff {earlier : List OrderBook} (hlen : earlier.length + 1 < 2147483648)
    (product : Bond) (midPrice : ℚ) :
    (∀ order ∈ orderFor earlier (BondMarketDataConnector.bookAround product midPrice),
        ∀ field ∈ executionColumns order, FitsIn field.1 field.2) ↔
      earlier.length + 1 < 100000000 ∧
        BookFits (BondMarketDataConnector.bookAround product midPrice) := by
  have hside : ∀ side, FitsIn 10 (pricingSideOutput side).toList := by
    intro side
    cases side <;> decide
  have htype : FitsIn 13 (orderTypeOutput .market).toList := by decide
  have hquantities : FitsIn 18 (toString (10000000 : ℤ)).toList ∧
      FitsIn 18 (toString (0 : ℤ)).toList := by decide
  have hrest : FitsIn 18 "NULL".toList ∧ FitsIn 15 "FALSE".toList := by decide
  have hid := fitsIn_orderId_iff hlen
  push_cast at hid
  rw [orderFor_bookAround, List.forall_mem_singleton, BookFits,
    BondMarketDataConnector.bookAround_mid]
  simp only [executionColumns, List.forall_mem_cons, hside, htype, hquantities, hrest, hid,
    Bond.productId_ofCusip, Option.some.injEq]
  constructor
  · rintro ⟨hcusip, -, hnumber, -, htext, -⟩
    exact ⟨hnumber, hcusip, fun mid hmid => hmid ▸ htext⟩
  · rintro ⟨hnumber, hcusip, htext⟩
    exact ⟨hcusip, trivial, hnumber, trivial, htext midPrice rfl, by simp⟩

/-- **The rows of the orders** for some books that the reader has made. -/
theorem orders_fit_iff {books : List OrderBook} (hlen : books.length < 2147483648)
    (hbooks : ∀ book ∈ books, ∃ product midPrice,
      book = BondMarketDataConnector.bookAround product midPrice) :
    (∀ order ∈ ordersFor books, ∀ field ∈ executionColumns order, FitsIn field.1 field.2) ↔
      books.length < 100000000 ∧ ∀ book ∈ books, BookFits book := by
  induction books using List.reverseRecOn with
  | nil => simp [ordersFor, along]
  | append_singleton books book ih =>
      rw [List.length_append, List.length_singleton] at hlen ⊢
      obtain ⟨product, midPrice, rfl⟩ := hbooks book (List.mem_append_right _ List.mem_cons_self)
      rw [ordersFor_concat, List.forall_mem_append, List.forall_mem_append,
        ih (by omega) fun b hb => hbooks b (List.mem_append_left _ hb),
        order_fits_iff hlen, List.forall_mem_singleton]
      constructor
      · rintro ⟨⟨-, hfit⟩, hnumber, hlast⟩
        exact ⟨hnumber, hfit, hlast⟩
      · rintro ⟨hnumber, hfit, hlast⟩
        exact ⟨⟨by omega, hfit⟩, hnumber, hlast⟩

/-- One order for each of them. -/
theorem length_ordersFor {books : List OrderBook}
    (hbooks : ∀ book ∈ books, ∃ product midPrice,
      book = BondMarketDataConnector.bookAround product midPrice) :
    (ordersFor books).length = books.length := by
  induction books using List.reverseRecOn with
  | nil => rfl
  | append_singleton books book ih =>
      obtain ⟨product, midPrice, rfl⟩ := hbooks book (List.mem_append_right _ List.mem_cons_self)
      rw [ordersFor_concat, orderFor_bookAround, List.length_append, List.length_append,
        ih fun b hb => hbooks b (List.mem_append_left _ hb)]
      rfl

/-! ## 5. The reports of main -/

namespace Desk

/-- The text of a report that a run of `main` has written. -/
theorem main_text {uninit : Nat → ℤ} {files : String → Option String}
    {disk : String → Option (List Item)} (hlen : (taken files).length < 2147483648)
    {report : Report} (hsome : published uninit (taken files) report ≠ [])
    (text : List Item → List (List (List Char))) :
    ((main uninit files disk).state.archive.disk report.file).map text =
      some (text (contentOf report (published uninit (taken files) report))) := by
  rw [disk_main uninit disk hlen, filedOver_report, if_neg hsome, Option.map_some]

/-- The report reads back as these records. -/
def ReadsBack (dateText : Option Date → String) (garbage : ℚ) (fixed : Bool) (d : Desk)
    (report : Report) (records : List (List (Nat × List Char))) : Prop :=
  (d.archive.disk report.file).map (textRows dateText garbage fixed) = some (keyed records)

/-- **A report of `main` whose fields all stand behind `setw`** reads back exactly when they fit. -/
theorem main_readsBack_iff {α : Type} {dateText : Option Date → String} {garbage : ℚ} {fixed : Bool}
    {uninit : Nat → ℤ} {files : String → Option String} {disk : String → Option (List Item)}
    (hlen : (taken files).length < 2147483648) {report : Report} {publish : α → List Item}
    {columns : α → List (Nat × List Char)} (hsingle : ∀ data, SingleLine (publish data))
    (hcolumns : ∀ data key, (rowOf (publish data) key).map (Item.cell dateText garbage fixed) =
      setw 5 (toString key).toList :: (columns data).map fun field => setw field.1 field.2)
    {records : List α} (hpublished : published uninit (taken files) report = records.map publish)
    (hsome : records ≠ []) :
    ReadsBack dateText garbage fixed (main uninit files disk).state report (records.map columns) ↔
      ∀ data ∈ records, ∀ field ∈ columns data, FitsIn field.1 field.2 := by
  have hpublish : published uninit (taken files) report ≠ [] := by
    rw [hpublished]
    exact mt List.map_eq_nil_iff.mp hsome
  rw [ReadsBack, main_text hlen hpublish, Option.some.injEq, hpublished]
  exact columns_readBack_iff dateText garbage fixed report hsingle hcolumns records

/-- **The reports of `main` as characters**, after any run without an overflow, however it ends: read line
    by line and word by word, they give back the orders, the price streams and the inquiries, under the
    keys 1, 2, 3, …, exactly when certain fields of the input are words that fit their columns. -/
theorem main_texts {long : ℤ → ℤ} (hlong : LongArithmetic long) (dateText : Option Date → String)
    (garbage : ℚ) (fixed : Bool) (uninit : Nat → ℤ) (files : String → Option String)
    (disk : String → Option (List Item)) (hlen : (taken files).length < 2147483648)
    (hfit : LongsFit uninit (tradesIn (taken files))) :
    (booksIn (taken files) ≠ [] →
      (ReadsBack dateText garbage fixed (mainWith long uninit files disk).state .executions
          ((ordersFor (booksIn (taken files))).map executionColumns) ↔
        (booksIn (taken files)).length < 100000000 ∧
          ∀ book ∈ booksIn (taken files), BookFits book)) ∧
    (pricesIn (taken files) ≠ [] →
      (ReadsBack dateText garbage fixed (mainWith long uninit files disk).state .streaming
          ((pricesIn (taken files)).map fun price =>
            streamingColumns (BondAlgoStreamingService.streamFor price)) ↔
        ∀ price ∈ pricesIn (taken files), FitsIn 15 price.product.productId.toList)) ∧
    (inquiriesIn (taken files) ≠ [] →
      (ReadsBack dateText garbage fixed (mainWith long uninit files disk).state .allinquires
          ((inquiriesIn (taken files)).map fun inquiry =>
            inquiryColumns (BondInquiryConnector.finished inquiry)) ↔
        ∀ inquiry ∈ inquiriesIn (taken files), FitsIn 13 inquiry.inquiryId.toList ∧
          FitsIn 15 inquiry.product.productId.toList ∧
          -(10 : ℤ) ^ 13 < inquiry.quantity ∧ inquiry.quantity < (10 : ℤ) ^ 14)) := by
  rw [mainWith_exact uninit disk hlong hfit]
  refine ⟨fun hbooks => ?_, fun hprices => ?_, fun hinquiries => ?_⟩
  · have hmade : ∀ book ∈ booksIn (taken files), ∃ product midPrice,
        book = BondMarketDataConnector.bookAround product midPrice := by
      intro book hbook
      obtain ⟨cusip, midPrice, h⟩ := bookAround_script (booksIn_taken_subset files hbook)
      exact ⟨_, midPrice, h⟩
    have hsome : ordersFor (booksIn (taken files)) ≠ [] := by
      rw [Ne, ← List.length_eq_zero_iff, length_ordersFor hmade, List.length_eq_zero_iff]
      exact hbooks
    have hcount : (booksIn (taken files)).length < 2147483648 :=
      (List.length_filterMap_le _ _).trans_lt hlen
    rw [← orders_fit_iff hcount hmade]
    exact main_readsBack_iff hlen singleLine_execution (fun _ _ => rfl) rfl hsome
  · have hpublished : published uninit (taken files) .streaming =
        (pricesIn (taken files)).map fun price =>
          BondHistoricalStreamingDataConnector.publish
            (BondAlgoStreamingService.streamFor price) := rfl
    simp only [← streamFor_fits_iff]
    exact main_readsBack_iff hlen (fun _ => singleLine_streaming _) (fun _ _ => rfl) hpublished
      hprices
  · have hpublished : published uninit (taken files) .allinquires =
        (inquiriesIn (taken files)).map fun inquiry =>
          BondHistoricalInquiryDataConnector.publish (BondInquiryConnector.finished inquiry) := rfl
    simp only [← finished_fits_iff]
    exact main_readsBack_iff hlen (fun _ => singleLine_inquiry _) (fun _ _ => rfl) hpublished
      hinquiries

theorem taken_smallFiles : (taken smallFiles).length < 2147483648 ∧
    tradesIn (taken smallFiles) ≠ [] ∧
    (∀ trade ∈ tradesIn (taken smallFiles), trade.product ∈ knownBonds) ∧
    LongsFit (fun _ => 0) (tradesIn (taken smallFiles)) := by
  decide +kernel

theorem texts_smallFiles : booksIn (taken smallFiles) ≠ [] ∧
    (∀ book ∈ booksIn (taken smallFiles), BookFits book) ∧
    pricesIn (taken smallFiles) ≠ [] ∧
    (∀ price ∈ pricesIn (taken smallFiles), FitsIn 15 price.product.productId.toList) ∧
    inquiriesIn (taken smallFiles) ≠ [] ∧
    ∀ inquiry ∈ inquiriesIn (taken smallFiles), FitsIn 13 inquiry.inquiryId.toList ∧
      FitsIn 15 inquiry.product.productId.toList ∧
      -(10 : ℤ) ^ 13 < inquiry.quantity ∧ inquiry.quantity < (10 : ℤ) ^ 14 := by
  decide +kernel

/-- The theorem at files with a message of each flow: all three reports read back. -/
theorem main_texts_small :
    ReadsBack simpleDate 0 false (mainWith wrapLong (fun _ => 0) smallFiles fun _ => none).state
        .executions ((ordersFor (booksIn (taken smallFiles))).map executionColumns) ∧
      ReadsBack simpleDate 0 false (mainWith wrapLong (fun _ => 0) smallFiles fun _ => none).state
        .streaming ((pricesIn (taken smallFiles)).map fun price =>
          streamingColumns (BondAlgoStreamingService.streamFor price)) ∧
      ReadsBack simpleDate 0 false (mainWith wrapLong (fun _ => 0) smallFiles fun _ => none).state
        .allinquires ((inquiriesIn (taken smallFiles)).map fun inquiry =>
          inquiryColumns (BondInquiryConnector.finished inquiry)) := by
  obtain ⟨hlen, -, -, hfit⟩ := taken_smallFiles
  obtain ⟨hbooks, hbooksFit, hprices, hpricesFit, hinquiries, hinquiriesFit⟩ := texts_smallFiles
  obtain ⟨hexecutions, hstreaming, hallinquires⟩ :=
    main_texts wrapLong_arithmetic simpleDate 0 false (fun _ => 0) smallFiles (fun _ => none) hlen hfit
  have hcount : (booksIn (taken smallFiles)).length < 100000000 := by decide +kernel
  exact ⟨(hexecutions hbooks).mpr ⟨hcount, hbooksFit⟩, (hstreaming hprices).mpr hpricesFit,
    (hallinquires hinquiries).mpr hinquiriesFit⟩

/-! ## 6. The position report of main -/

section Position

variable (dateText : Option Date → String) (garbage : ℚ)

theorem rowText_position (key : ℤ) (result : ℤ) (data : Position) :
    rowText dateText garbage false
        (rowOf (BondHistoricalPositionDataConnector.publish result data) key) =
      setCells ' ' (positionCells dateText garbage id (toString key) result data) := by
  unfold rowText rowOf BondHistoricalPositionDataConnector.publish
    BondHistoricalPositionDataConnector.publishWith
  simp [setCells, positionCells, Item.cell, Item.key, Item.text, Item.long, Item.gap, setw,
    Value.chars]

variable {dateText}
  (hdate : ∀ bond ∈ knownBonds, IsWord isSpace (dateText bond.maturityDate).toList)

include hdate in
theorem apart_positionCells_iff {persistKey : String} {result : ℤ} {data : Position}
    (hknown : data.product ∈ knownBonds) :
    Apart isSpace (positionCells dateText garbage id persistKey result data) ↔
      PositionFits id persistKey result data := by
  have hline : words isSpace (positionLine dateText garbage id persistKey result data) =
      positionFields dateText garbage id persistKey result data ↔
        PositionFits id persistKey result data := positionLine_words_iff hdate hknown
  rw [← hline, positionLine_eq, ← positionCells_text]
  exact (words_row_iff (by decide) _).symm

/-- The row of a trade fits its columns; what the local of the aggregate holds is in there too. Only a
    negative `long` has twenty characters, so the aggregate is bounded from below alone. -/
structure TradeFits (result : ℤ) (trade : Trade) : Prop where
  aggregate : -(10 : ℤ) ^ 18 < result + trade.signed
  book : trade.book ∈ ["TRSY1", "TRSY2", "TRSY3"] →
    -(10 : ℤ) ^ 8 < trade.signed ∧ trade.signed < (10 : ℤ) ^ 9

theorem positionFits_ofTrade_iff (key : ℤ) {result : ℤ} {trade : Trade}
    (hlong : IsLong (result + trade.signed)) :
    PositionFits id (toString key) result (.ofTrade trade) ↔ TradeFits result trade := by
  have haggregate : (Position.ofTrade trade).getAggregatePositionWith id result =
      result + trade.signed := rfl
  constructor
  · intro h
    refine ⟨haggregate ▸ h.aggregate.1, fun hbook => ?_⟩
    have hfits := h.books trade.book hbook
    rw [Position.getPosition_ofTrade, if_pos rfl] at hfits
    exact hfits
  · intro h
    refine ⟨isWord_toString key, ⟨haggregate ▸ h.aggregate, ?_⟩, fun book hbook => ?_⟩
    · rw [haggregate]
      exact hlong.2.trans_lt (by decide)
    · rw [Position.getPosition_ofTrade]
      split_ifs with heq
      · exact h.book (heq ▸ hbook)
      · decide

end Position

/-- The records of position.txt, by the number of their trade. -/
theorem published_position_eq (uninit : Nat → ℤ) (ms : List Message) :
    published uninit ms .position = (tradesIn ms).zipIdx.map fun entry =>
      BondHistoricalPositionDataConnector.publish (uninit (2 * entry.2 + 1)) (.ofTrade entry.1) :=
  along_zipIdx (fun n trade =>
    BondHistoricalPositionDataConnector.publish (uninit (2 * n + 1)) (.ofTrade trade)) (tradesIn ms)

/-- **position.txt as characters** after any run of `main` without an overflow, and with trades in the six
    notes and bonds only: it gives back every trade exactly when the quantities fit their columns. -/
theorem main_position_text {long : ℤ → ℤ} (hlong : LongArithmetic long)
    (dateText : Option Date → String) (garbage : ℚ)
    (hdate : ∀ bond ∈ knownBonds, IsWord isSpace (dateText bond.maturityDate).toList)
    (uninit : Nat → ℤ) (files : String → Option String) (disk : String → Option (List Item))
    (hlen : (taken files).length < 2147483648) (hfit : LongsFit uninit (tradesIn (taken files)))
    (htrades : tradesIn (taken files) ≠ [])
    (hknown : ∀ trade ∈ tradesIn (taken files), trade.product ∈ knownBonds) :
    ((mainWith long uninit files disk).state.archive.disk "position.txt").map
        (textRows dateText garbage false) =
          some ((tradesIn (taken files)).zipIdx.map fun entry =>
            positionFields dateText garbage id (toString ((entry.2 : ℤ) + 1))
              (uninit (2 * entry.2 + 1)) (.ofTrade entry.1)) ↔
      ∀ entry ∈ (tradesIn (taken files)).zipIdx,
        TradeFits (uninit (2 * entry.2 + 1)) entry.1 := by
  -- the cells of the rows
  let cells := (tradesIn (taken files)).zipIdx.map fun entry =>
    positionCells dateText garbage id (toString ((entry.2 : ℤ) + 1)) (uninit (2 * entry.2 + 1))
      (.ofTrade entry.1)
  have hsome : published uninit (taken files) .position ≠ [] := by
    rw [published_position_eq, Ne, List.map_eq_nil_iff, List.zipIdx_eq_nil_iff]
    exact htrades
  have hsingle : ∀ p ∈ published uninit (taken files) .position, SingleLine p := by
    intro p hp
    rw [published_position_eq] at hp
    obtain ⟨entry, -, rfl⟩ := List.mem_map.mp hp
    exact singleLine_position _ _
  have hrows : (((published uninit (taken files) .position).zipIdx 1).map fun entry =>
      rowOf entry.1 entry.2).map (rowText dateText garbage false) = cells.map (setCells ' ') := by
    refine List.ext_getElem (by simp [cells, published_position_eq]) fun n h h' => ?_
    simp only [cells, published_position_eq, List.getElem_map, List.getElem_zipIdx,
      rowText_position, Nat.zero_add, Nat.add_comm 1 n, Nat.cast_add, Nat.cast_one]
  have htexts : cells.map (List.map Cell.text) =
      (tradesIn (taken files)).zipIdx.map fun entry =>
        positionFields dateText garbage id (toString ((entry.2 : ℤ) + 1)) (uninit (2 * entry.2 + 1))
          (.ofTrade entry.1) := by
    rw [List.map_map]
    rfl
  rw [mainWith_exact uninit disk hlong hfit, show "position.txt" = Report.position.file from rfl,
    main_text hlen hsome, Option.some.injEq, contentOf, report_eq_unlines .position hsingle, ← htexts,
    textRows_iff dateText garbage false .position hrows, List.forall_mem_map]
  refine forall₂_congr fun entry hentry => ?_
  rw [apart_positionCells_iff garbage hdate (hknown entry.1 (List.fst_mem_of_mem_zipIdx hentry)),
    positionFits_ofTrade_iff _ (hfit.aggregate_zipIdx hentry)]

/-- The theorem at the same files. -/
theorem main_position_text_small :
    ((mainWith wrapLong (fun _ => 0) smallFiles fun _ => none).state.archive.disk "position.txt").map
        (textRows simpleDate 0 false) =
          some ((tradesIn (taken smallFiles)).zipIdx.map fun entry =>
            positionFields simpleDate 0 id (toString ((entry.2 : ℤ) + 1)) 0 (.ofTrade entry.1)) ↔
      ∀ entry ∈ (tradesIn (taken smallFiles)).zipIdx, TradeFits 0 entry.1 := by
  obtain ⟨hlen, htrades, hknown, hfit⟩ := taken_smallFiles
  exact main_position_text wrapLong_arithmetic simpleDate 0 isWord_simpleDate (fun _ => 0) smallFiles
    (fun _ => none) hlen hfit htrades hknown

/-! ## 7. The risk report of main -/

/-- The risk entries after each of some trades. -/
def riskHistory (uninit : Nat → ℤ) (trades : List Trade) : List (List PV01) :=
  along (fun pre trade => [riskEntries uninit (pre ++ [trade])]) [] trades

/-- The fields of an entry's line: those of the first one stand behind the bucket figures. -/
def entryFields (entry : PV01) (i : Nat) : List Item :=
  (BondHistoricalRiskDataConnector.entryItems entry i).dropLast

/-- The lines of a block of risk.txt. -/
def blockLines (key : ℤ) (data : List PV01) : List (List Item) :=
  match data with
  | [] => []
  | entry :: rest =>
      (.key key :: (.field 20 (.double (BondHistoricalRiskDataConnector.bucketFormulas data).1)) ::
        (.field 20 (.double (BondHistoricalRiskDataConnector.bucketFormulas data).2.1)) ::
        (.field 20 (.double (BondHistoricalRiskDataConnector.bucketFormulas data).2.2)) ::
          entryFields entry 0) ::
        (rest.zipIdx 1).map fun (entry, i) => entryFields entry i

theorem entryItems_eq (entry : PV01) (i : Nat) :
    BondHistoricalRiskDataConnector.entryItems entry i = entryFields entry i ++ [.endl] := by
  unfold entryFields BondHistoricalRiskDataConnector.entryItems
  split_ifs <;> rfl

/-- **A record of risk.txt is its lines.** -/
theorem record_risk (key : ℤ) (entry : PV01) (rest : List PV01) :
    HistoricalDataService.record (BondHistoricalRiskDataConnector.publish (entry :: rest)) key =
      unlines .endl (blockLines key (entry :: rest)) := by
  unfold HistoricalDataService.record BondHistoricalRiskDataConnector.publish blockLines unlines
  rw [List.zipIdx_cons, List.flatMap_cons, List.flatMap_cons, List.flatMap_map]
  simp only [entryItems_eq, List.cons_append, List.nil_append, List.append_assoc, Nat.zero_add]

section Risk

variable (dateText : Option Date → String) (garbage : ℚ)

/-- The line of an entry that is not the first. -/
def entryCells (entry : PV01) : List (Cell Char) :=
  [setw 78 entry.product.productId.toList,
    ⟨4, (Value.coupon entry.product.coupon).chars dateText garbage true⟩,
    ⟨4, (dateText entry.product.maturityDate).toList⟩, ⟨4, totalRiskText entry⟩]

/-- The lines of a block as cells. -/
def blockCells (key : ℤ) (data : List PV01) : List (List (Cell Char)) :=
  match data with
  | [] => []
  | entry :: rest =>
      riskCells dateText garbage (toString key) entry rest ::
        rest.map (entryCells dateText garbage)

/-- The fields of its lines. -/
def blockFields (key : ℤ) (data : List PV01) : List (List (List Char)) :=
  match data with
  | [] => []
  | entry :: rest =>
      riskFields dateText garbage (toString key) entry rest :: rest.map fun entry =>
        [entry.product.productId.toList,
          (Value.coupon entry.product.coupon).chars dateText garbage true,
          (dateText entry.product.maturityDate).toList, totalRiskText entry]

theorem blockCells_text (key : ℤ) (data : List PV01) :
    (blockCells dateText garbage key data).map (List.map Cell.text) =
      blockFields dateText garbage key data := by
  cases data with
  | nil => rfl
  | cons entry rest =>
      rw [blockCells, blockFields, List.map_cons, List.map_map]
      rfl

theorem rowText_blockLines (key : ℤ) (data : List PV01) :
    (blockLines key data).map (rowText dateText garbage true) =
      (blockCells dateText garbage key data).map (setCells ' ') := by
  cases data with
  | nil => rfl
  | cons entry rest =>
      rw [blockLines, blockCells, List.map_cons, List.map_cons, List.map_map, List.map_map]
      refine congrArg₂ List.cons ?_ ?_
      · unfold rowText entryFields BondHistoricalRiskDataConnector.entryItems
        simp [setCells, riskCells, Item.cell, Item.key, Item.text, Item.gap, setw, Value.chars,
          Bucket.figure, figureText, totalRiskText]
      · have hrest : rest.map (setCells ' ' ∘ entryCells dateText garbage) =
            (rest.zipIdx 1).map fun e => setCells ' ' (entryCells dateText garbage e.1) := by
          conv_lhs => rw [← List.zipIdx_map_fst 1 rest, List.map_map]
          rfl
        rw [hrest]
        refine List.map_congr_left fun e he => ?_
        -- never the first entry of a block
        have hne : e.2 ≠ 0 := by
          have := List.le_snd_of_mem_zipIdx he
          omega
        show rowText dateText garbage true (entryFields e.1 e.2) = _
        unfold rowText entryFields BondHistoricalRiskDataConnector.entryItems
        rw [if_neg hne]
        simp [setCells, entryCells, Item.cell, Item.text, Item.gap, setw, Value.chars, totalRiskText]

variable {dateText}
  (hdate : ∀ bond ∈ knownBonds, IsWord isSpace (dateText bond.maturityDate).toList)

include hdate in
/-- **The lines of a block read back** exactly when the bucket figures fit their columns. -/
theorem apart_blockCells_iff {key : ℤ} {data : List PV01} (hsome : data ≠ [])
    (hknown : ∀ entry ∈ data, entry.product ∈ knownBonds) :
    (∀ row ∈ blockCells dateText garbage key data, Apart isSpace row) ↔
      RiskFits (toString key) data := by
  obtain ⟨entry, rest, rfl⟩ := List.exists_cons_of_ne_nil hsome
  have hfirst : words isSpace (riskLine dateText garbage true (toString key) (entry :: rest)) =
      riskFields dateText garbage (toString key) entry rest ↔
        RiskFits (toString key) (entry :: rest) :=
    riskLine_words_iff hdate true (hknown entry List.mem_cons_self)
  have hrest : ∀ row ∈ rest.map (entryCells dateText garbage), Apart isSpace row := by
    rw [List.forall_mem_map]
    intro e he
    have hbond := hknown e (List.mem_cons_of_mem _ he)
    have hfits := bondFits_of_known garbage hbond
    simp only [Apart, entryCells, List.forall_mem_cons, List.tail_cons]
    refine ⟨⟨hfits.productId.1, hfits.fixedCoupon, hdate _ hbond, Double.isWord_text _, ?_⟩,
      by decide, by decide, by decide, ?_⟩
    · exact fun _ hc => by cases hc
    · exact fun _ hc => by cases hc
  rw [blockCells, List.forall_mem_cons, and_iff_left hrest, ← hfirst, riskLine_eq, ← riskCells_text]
  exact (words_row_iff (by decide) _).symm

end Risk

/-! What is in the history of the risk entries. -/

theorem mem_riskHistory {uninit : Nat → ℤ} {trades : List Trade} {data : List PV01}
    (h : data ∈ riskHistory uninit trades) :
    ∃ pre, pre <+: trades ∧ pre ≠ [] ∧ data = riskEntries uninit pre := by
  induction trades using List.reverseRecOn with
  | nil => cases h
  | append_singleton trades trade ih =>
      rw [riskHistory, along_concat, List.nil_append, List.mem_append, List.mem_singleton] at h
      rcases h with h | rfl
      · obtain ⟨pre, hpre, hne, hdata⟩ := ih h
        exact ⟨pre, hpre.trans (List.prefix_append _ _), hne, hdata⟩
      · exact ⟨trades ++ [trade], List.prefix_rfl, by simp, rfl⟩

theorem riskEntries_ne_nil {uninit : Nat → ℤ} {trades : List Trade} (h : trades ≠ []) :
    riskEntries uninit trades ≠ [] := by
  obtain ⟨trade, rest, rfl⟩ := List.exists_cons_of_ne_nil h
  have hmem : trade.cusip ∈ ((trade :: rest).map Trade.cusip).eraseDups :=
    List.mem_eraseDups.mpr List.mem_cons_self
  exact List.ne_nil_of_mem (List.mem_map_of_mem hmem)

/-- Entries are for products that were traded. -/
theorem product_of_mem_riskEntries {uninit : Nat → ℤ} {trades : List Trade} {entry : PV01}
    (hknown : ∀ trade ∈ trades, trade.product ∈ knownBonds)
    (h : entry ∈ riskEntries uninit trades) : entry.product ∈ knownBonds := by
  obtain ⟨cusip, hcusip, rfl⟩ := List.mem_map.mp h
  obtain ⟨trade, htrade, rfl⟩ := List.mem_map.mp (List.mem_eraseDups.mp hcusip)
  show Bond.ofCusip trade.product.productId ∈ knownBonds
  rw [ofCusip_of_known (hknown trade htrade)]
  exact hknown trade htrade

theorem published_risk_eq (uninit : Nat → ℤ) (ms : List Message) :
    published uninit ms .risk =
      (riskHistory uninit (tradesIn ms)).map BondHistoricalRiskDataConnector.publish := by
  rw [published, riskHistory, map_along]
  rfl

/-- **risk.txt is the lines of its blocks**, one block for each trade. -/
theorem content_risk (history : List (List PV01)) (hsome : ∀ data ∈ history, data ≠ []) :
    contentOf .risk (history.map BondHistoricalRiskDataConnector.publish) =
      unlines .endl (Report.risk.headings ::
        (history.zipIdx 1).flatMap fun block => blockLines block.2 block.1) := by
  unfold contentOf numbered unlines Report.header
  rw [List.flatMap_cons, List.map_map, List.zipIdx_map, List.flatMap_map, List.flatMap_assoc]
  refine congrArg _ (List.flatMap_congr fun block hblock => ?_)
  obtain ⟨entry, rest, heq⟩ :=
    List.exists_cons_of_ne_nil (hsome block.1 (List.fst_mem_of_mem_zipIdx hblock))
  show HistoricalDataService.record (BondHistoricalRiskDataConnector.publish block.1) block.2 =
    unlines .endl (blockLines block.2 block.1)
  rw [heq]
  exact record_risk _ entry rest

/-- **risk.txt as characters** after any run of `main` without an overflow, and with trades in the six
    notes and bonds only: it gives back the whole history of the risk entries, block by block, exactly
    when the bucket figures, as they are printed, fit their columns after every trade. -/
theorem main_risk_text {long : ℤ → ℤ} (hlong : LongArithmetic long)
    (dateText : Option Date → String) (garbage : ℚ)
    (hdate : ∀ bond ∈ knownBonds, IsWord isSpace (dateText bond.maturityDate).toList)
    (uninit : Nat → ℤ) (files : String → Option String) (disk : String → Option (List Item))
    (hlen : (taken files).length < 2147483648) (hfit : LongsFit uninit (tradesIn (taken files)))
    (htrades : tradesIn (taken files) ≠ [])
    (hknown : ∀ trade ∈ tradesIn (taken files), trade.product ∈ knownBonds) :
    ((mainWith long uninit files disk).state.archive.disk "risk.txt").map
        (textRows dateText garbage true) =
        some (((riskHistory uninit (tradesIn (taken files))).zipIdx 1).flatMap fun block =>
          blockFields dateText garbage block.2 block.1) ↔
      ∀ block ∈ (riskHistory uninit (tradesIn (taken files))).zipIdx 1,
        RiskFits (toString (block.2 : ℤ)) block.1 := by
  have hentries : ∀ data ∈ riskHistory uninit (tradesIn (taken files)), data ≠ [] ∧
      ∀ entry ∈ data, entry.product ∈ knownBonds := by
    intro data hdata
    obtain ⟨pre, hpre, hne, rfl⟩ := mem_riskHistory hdata
    exact ⟨riskEntries_ne_nil hne, fun entry hentry =>
      product_of_mem_riskEntries (fun trade ht => hknown trade (hpre.subset ht)) hentry⟩
  have hsome : published uninit (taken files) .risk ≠ [] := by
    obtain ⟨trade, trades, heq⟩ := List.exists_cons_of_ne_nil htrades
    rw [published_risk_eq, heq]
    exact List.cons_ne_nil _ _
  have hrows : (((riskHistory uninit (tradesIn (taken files))).zipIdx 1).flatMap fun block =>
      blockLines block.2 block.1).map (rowText dateText garbage true) =
        (((riskHistory uninit (tradesIn (taken files))).zipIdx 1).flatMap fun block =>
          blockCells dateText garbage block.2 block.1).map (setCells ' ') := by
    rw [List.map_flatMap, List.map_flatMap]
    exact List.flatMap_congr fun block _ => rowText_blockLines dateText garbage block.2 block.1
  have htexts : (((riskHistory uninit (tradesIn (taken files))).zipIdx 1).flatMap fun block =>
      blockCells dateText garbage block.2 block.1).map (List.map Cell.text) =
        ((riskHistory uninit (tradesIn (taken files))).zipIdx 1).flatMap fun block =>
          blockFields dateText garbage block.2 block.1 := by
    rw [List.map_flatMap]
    exact List.flatMap_congr fun block _ => blockCells_text dateText garbage block.2 block.1
  rw [mainWith_exact uninit disk hlong hfit, show "risk.txt" = Report.risk.file from rfl,
    main_text hlen hsome, Option.some.injEq, published_risk_eq,
    content_risk _ fun data hdata => (hentries data hdata).1, ← htexts,
    textRows_iff dateText garbage true .risk hrows, List.forall_mem_flatMap]
  refine forall₂_congr fun block hblock => ?_
  obtain ⟨hne, hproducts⟩ := hentries block.1 (List.fst_mem_of_mem_zipIdx hblock)
  exact apart_blockCells_iff garbage hdate hne hproducts

/-- The theorem at the same files. -/
theorem main_risk_text_small :
    ((mainWith wrapLong (fun _ => 0) smallFiles fun _ => none).state.archive.disk "risk.txt").map
        (textRows simpleDate 0 true) =
          some (((riskHistory (fun _ => 0) (tradesIn (taken smallFiles))).zipIdx 1).flatMap
            fun block => blockFields simpleDate 0 block.2 block.1) ↔
      ∀ block ∈ (riskHistory (fun _ => 0) (tradesIn (taken smallFiles))).zipIdx 1,
        RiskFits (toString (block.2 : ℤ)) block.1 := by
  obtain ⟨hlen, htrades, hknown, hfit⟩ := taken_smallFiles
  exact main_risk_text wrapLong_arithmetic simpleDate 0 isWord_simpleDate (fun _ => 0) smallFiles
    (fun _ => none) hlen hfit htrades hknown

end Desk

end BondTrading
