/-
  File:      BondTrading/ReportText.lean
  Subject:   THE REPORTS AS CHARACTERS: a row of position.txt and the first line of a block of
             risk.txt, and when they can be split into their fields again.

  `f2` never gets the `fixed` flag; `f1` has it from the first bucket figure on. The figures of risk.txt
  are printed as they come out of the rounded products and sums.

  * `Item.cell`, `lineText` -- what is inserted into a file, set in characters;
  * `positionLine_words_iff`, `riskLine_words_iff` -- the two rows read back exactly when no field is
    as wide as its column (`PositionFits`, `RiskFits`);
  * `rows_readBack_iff` -- both together, and that rows which read back are of one record only.

  How a date is printed is the date library's affair: `dateText` is an argument, and so is what the
  coupon of a bond happens to be whose constructor left it uninitialised (`garbage`).
-/
import BondTrading.Historical
import BondTrading.Library.Columns

namespace BondTrading

open Cxx

/-! ## 1. What is inserted, in characters -/

/-- What `PersistData` inserts behind a header: the key, and what is published. -/
def HistoricalDataService.written (persistKey : String) (publish : List Item) : List Item :=
  .text 5 persistKey :: publish

theorem HistoricalDataService.persistData_written (file : String) (header publish : List Item)
    (persistKey : String) (num : ℤ) (out : Output String Item) :
    persistData file header publish persistKey num out =
      (int32 (num + 1), (if num = 1 then (out.close.openFile file).write header else out).write
        (written persistKey publish)) := by
  unfold persistData
  simp only [Output.write_write]
  rfl

section Text

variable (dateText : Option Date → String) (garbage : ℚ)

/-- The characters of a value; `fixed` is the format flag of the stream. -/
def Value.chars (fixed : Bool) : Value → List Char
  | .text s => s.toList
  | .long n => (toString n).toList
  | .double f => f.value.text (if fixed then fixedText else defaultText)
  | .coupon c => if fixed then fixedText (c.getD garbage) else defaultText (c.getD garbage)
  | .date d => (dateText d).toList

def Item.cell (fixed : Bool) : Item → Cell Char
  | .field width value => setw width (value.chars dateText garbage fixed)
  | .endl => ⟨0, ['\n']⟩

/-- The characters of the first line among what is inserted. -/
def lineText (fixed : Bool) (items : List Item) : List Char :=
  setCells ' ' ((items.takeWhile (· ≠ .endl)).map (Item.cell dateText garbage fixed))

/-- A row of position.txt. -/
def positionLine (long : ℤ → ℤ) (persistKey : String) (result : ℤ) (data : Position) : List Char :=
  lineText dateText garbage false (HistoricalDataService.written persistKey
    (BondHistoricalPositionDataConnector.publishWith long result data))

/-- The first line of a block of risk.txt: the key still under the old flag of the stream, and from
    the bucket figures on with `fixed`. -/
def riskLine (flag : Bool) (persistKey : String) (data : List PV01) : List Char :=
  lineText dateText garbage flag (HistoricalDataService.written persistKey []) ++
    lineText dateText garbage true (BondHistoricalRiskDataConnector.publish data)

/-! ## 2. The fields -/

/-- The fields of a row of position.txt. -/
def positionFields (long : ℤ → ℤ) (persistKey : String) (result : ℤ) (data : Position) :
    List (List Char) :=
  [persistKey.toList, data.product.productId.toList,
    (Value.coupon data.product.coupon).chars dateText garbage false,
    (dateText data.product.maturityDate).toList,
    (toString (data.getAggregatePositionWith long result)).toList,
    (toString (data.getPosition "TRSY1")).toList, (toString (data.getPosition "TRSY2")).toList,
    (toString (data.getPosition "TRSY3")).toList]

/-- A bucket figure as it is printed. -/
def figureText (bucket : Bucket) (data : List PV01) : List Char :=
  (bucket.figure (BondHistoricalRiskDataConnector.bucketFormulas data)).value.text fixedText

/-- The risk of an entry as it is printed. -/
def totalRiskText (entry : PV01) : List Char :=
  (Formula.mul (.long entry.quantity) (.literal entry.pv01)).value.text fixedText

/-- The fields of the first line of a block of risk.txt: the key, the three bucket figures, and the
    fields of the first entry. -/
def riskFields (persistKey : String) (entry : PV01) (rest : List PV01) : List (List Char) :=
  [persistKey.toList,
    figureText .frontEnd (entry :: rest), figureText .belly (entry :: rest),
    figureText .longEnd (entry :: rest),
    entry.product.productId.toList,
    (Value.coupon entry.product.coupon).chars dateText garbage true,
    (dateText entry.product.maturityDate).toList, totalRiskText entry]

end Text

/-- The six bonds that `Bond(string)` knows. -/
def knownBonds : List Bond :=
  ["912828M72", "912828N22", "912828M98", "912828M80", "912828M56", "912810RP5"].map Bond.ofCusip

theorem ofCusip_of_known {bond : Bond} (h : bond ∈ knownBonds) :
    Bond.ofCusip bond.productId = bond := by
  obtain ⟨cusip, -, rfl⟩ := List.mem_map.mp h
  rw [Bond.productId_ofCusip]

/-- The CUSIP and the coupon of a known bond fit their columns. -/
structure BondFits (garbage : ℚ) (bond : Bond) : Prop where
  productId : IsWord isSpace bond.productId.toList ∧ byteLength bond.productId.toList < 13
  coupon : IsWord isSpace (defaultText (bond.coupon.getD garbage)) ∧
    byteLength (defaultText (bond.coupon.getD garbage)) < 10
  fixedCoupon : IsWord isSpace (fixedText (bond.coupon.getD garbage))

theorem bondFits_of_known (garbage : ℚ) {bond : Bond} (h : bond ∈ knownBonds) :
    BondFits garbage bond := by
  have hid : ∀ bond ∈ knownBonds, IsWord isSpace bond.productId.toList ∧
      byteLength bond.productId.toList < 13 := by decide +kernel
  have hcoupon : ∀ bond ∈ knownBonds, (bond.coupon.any fun c =>
      decide (IsWord isSpace (defaultText c) ∧ byteLength (defaultText c) < 10)) = true := by
    decide +kernel
  obtain ⟨c, hc, hfits⟩ := (Option.any_eq_true _ _).mp (hcoupon bond h)
  refine ⟨hid bond h, ?_, isWord_fixedText _⟩
  rw [hc, Option.getD_some]
  exact of_decide_eq_true hfits

/-! ## 3. Reading the rows back -/

/-- The row of position.txt fits its columns: the key is one word, the aggregate leaves a blank in 20
    characters, and each quantity one in 10. -/
structure PositionFits (long : ℤ → ℤ) (persistKey : String) (result : ℤ) (data : Position) : Prop where
  key : IsWord isSpace persistKey.toList
  aggregate : -(10 : ℤ) ^ 18 < data.getAggregatePositionWith long result ∧
    data.getAggregatePositionWith long result < (10 : ℤ) ^ 19
  books : ∀ book ∈ ["TRSY1", "TRSY2", "TRSY3"],
    -(10 : ℤ) ^ 8 < data.getPosition book ∧ data.getPosition book < (10 : ℤ) ^ 9

/-- The first line of a block of risk.txt fits its columns: the key is one word, and each bucket figure,
    as it is printed, leaves a blank in 20 characters. -/
structure RiskFits (persistKey : String) (data : List PV01) : Prop where
  key : IsWord isSpace persistKey.toList
  figures : ∀ bucket : Bucket, (figureText bucket data).length < 20

section Rows

variable {dateText : Option Date → String} {garbage : ℚ}
  (hdate : ∀ bond ∈ knownBonds, IsWord isSpace (dateText bond.maturityDate).toList)

/-- The row of position.txt as cells. -/
def positionCells (dateText : Option Date → String) (garbage : ℚ) (long : ℤ → ℤ) (persistKey : String)
    (result : ℤ) (data : Position) : List (Cell Char) :=
  [setw 5 persistKey.toList, setw 13 data.product.productId.toList,
    setw 10 ((Value.coupon data.product.coupon).chars dateText garbage false),
    ⟨4, (dateText data.product.maturityDate).toList⟩,
    setw 20 (toString (data.getAggregatePositionWith long result)).toList,
    setw 10 (toString (data.getPosition "TRSY1")).toList,
    setw 10 (toString (data.getPosition "TRSY2")).toList,
    setw 10 (toString (data.getPosition "TRSY3")).toList]

theorem positionLine_eq (long : ℤ → ℤ) (persistKey : String) (result : ℤ) (data : Position) :
    positionLine dateText garbage long persistKey result data =
      setCells ' ' (positionCells dateText garbage long persistKey result data) := by
  unfold positionLine lineText HistoricalDataService.written
    BondHistoricalPositionDataConnector.publishWith
  simp [setCells, positionCells, Item.cell, Item.text, Item.long, Item.gap, setw, Value.chars]

theorem positionCells_text (long : ℤ → ℤ) (persistKey : String) (result : ℤ) (data : Position) :
    (positionCells dateText garbage long persistKey result data).map Cell.text =
      positionFields dateText garbage long persistKey result data := rfl

/-- The first line of a block of risk.txt as cells. -/
def riskCells (dateText : Option Date → String) (garbage : ℚ) (persistKey : String) (entry : PV01)
    (rest : List PV01) : List (Cell Char) :=
  [setw 5 persistKey.toList,
    setw 20 (figureText .frontEnd (entry :: rest)), setw 20 (figureText .belly (entry :: rest)),
    setw 20 (figureText .longEnd (entry :: rest)),
    ⟨4, entry.product.productId.toList⟩,
    ⟨4, (Value.coupon entry.product.coupon).chars dateText garbage true⟩,
    ⟨4, (dateText entry.product.maturityDate).toList⟩, ⟨4, totalRiskText entry⟩]

/-- What is inserted before the first `endl` of a block. -/
theorem takeWhile_publish (entry : PV01) (rest : List PV01) :
    (BondHistoricalRiskDataConnector.publish (entry :: rest)).takeWhile (· ≠ .endl) =
      [.field 20 (.double (BondHistoricalRiskDataConnector.bucketFormulas (entry :: rest)).1),
        .field 20 (.double (BondHistoricalRiskDataConnector.bucketFormulas (entry :: rest)).2.1),
        .field 20 (.double (BondHistoricalRiskDataConnector.bucketFormulas (entry :: rest)).2.2),
        .gap, .text 0 entry.product.productId, .gap, .field 0 (.coupon entry.product.coupon), .gap,
        .field 0 (.date entry.product.maturityDate), .gap,
        .field 0 (.double (.mul (.long entry.quantity) (.literal entry.pv01)))] := by
  unfold BondHistoricalRiskDataConnector.publish
  rw [List.zipIdx_cons, List.flatMap_cons]
  rfl

theorem riskLine_eq (flag : Bool) (persistKey : String) (entry : PV01) (rest : List PV01) :
    riskLine dateText garbage flag persistKey (entry :: rest) =
      setCells ' ' (riskCells dateText garbage persistKey entry rest) := by
  unfold riskLine lineText HistoricalDataService.written
  rw [takeWhile_publish]
  simp [setCells, riskCells, Item.cell, Item.text, Item.gap, setw, Value.chars, figureText,
    totalRiskText, Bucket.figure]

theorem riskCells_text (persistKey : String) (entry : PV01) (rest : List PV01) :
    (riskCells dateText garbage persistKey entry rest).map Cell.text =
      riskFields dateText garbage persistKey entry rest := rfl

/-- A whole number leaves a blank in its column. -/
theorem setw_toString_blanks_pos_iff (n : ℤ) {w : Nat} (hw : 2 ≤ w) :
    0 < (setw (w + 1) (toString n).toList).blanks ↔ -(10 : ℤ) ^ (w - 1) < n ∧ n < (10 : ℤ) ^ w := by
  rw [setw_blanks_pos_iff, Nat.lt_succ_iff, byteLength_toString_le_iff n hw]

/-- A figure leaves a blank in its column: its characters are one byte each. -/
theorem setw_text_blanks_pos_iff (width : Nat) (d : Double) :
    0 < (setw width (d.text fixedText)).blanks ↔ (d.text fixedText).length < width := by
  rw [setw_blanks_pos_iff, byteLength_of_number d.inNumber_text]

include hdate

/-- **When a row of position.txt reads back.** -/
theorem positionLine_words_iff {long : ℤ → ℤ} {persistKey : String} {result : ℤ} {data : Position}
    (hknown : data.product ∈ knownBonds) :
    words isSpace (positionLine dateText garbage long persistKey result data) =
        positionFields dateText garbage long persistKey result data ↔
      PositionFits long persistKey result data := by
  have hbond := bondFits_of_known garbage hknown
  have hblank : isSpace ' ' = true := by decide
  rw [positionLine_eq, ← positionCells_text, positionCells, words_setCells_iff hblank]
  simp only [List.forall_mem_cons]
  constructor
  · rintro ⟨⟨hkey, -⟩, -, -, -, haggregate, h1, h2, h3, -⟩
    refine ⟨hkey, (setw_toString_blanks_pos_iff _ (by omega)).mp haggregate, fun book hbook => ?_⟩
    simp only [List.mem_cons, List.not_mem_nil, or_false] at hbook
    rcases hbook with rfl | rfl | rfl
    · exact (setw_toString_blanks_pos_iff _ (by omega)).mp h1
    · exact (setw_toString_blanks_pos_iff _ (by omega)).mp h2
    · exact (setw_toString_blanks_pos_iff _ (by omega)).mp h3
  · intro h
    have hbook : ∀ book ∈ ["TRSY1", "TRSY2", "TRSY3"],
        0 < (setw 10 (toString (data.getPosition book)).toList).blanks := fun book hmem =>
      (setw_toString_blanks_pos_iff _ (by omega)).mpr (h.books book hmem)
    refine ⟨⟨h.key, hbond.productId.1, hbond.coupon.1, hdate _ hknown, isWord_toString _,
      isWord_toString _, isWord_toString _, isWord_toString _, ?_⟩,
      (setw_blanks_pos_iff _ _).mpr hbond.productId.2, (setw_blanks_pos_iff _ _).mpr hbond.coupon.2,
      by decide, (setw_toString_blanks_pos_iff _ (by omega)).mpr h.aggregate,
      hbook _ (by simp), hbook _ (by simp), hbook _ (by simp), ?_⟩
    · exact fun _ hc => by cases hc
    · exact fun _ hc => by cases hc

/-- **When the first line of a block of risk.txt reads back.** -/
theorem riskLine_words_iff (flag : Bool) {persistKey : String} {entry : PV01} {rest : List PV01}
    (hknown : entry.product ∈ knownBonds) :
    words isSpace (riskLine dateText garbage flag persistKey (entry :: rest)) =
        riskFields dateText garbage persistKey entry rest ↔
      RiskFits persistKey (entry :: rest) := by
  have hbond := bondFits_of_known garbage hknown
  have hblank : isSpace ' ' = true := by decide
  rw [riskLine_eq, ← riskCells_text, riskCells, words_setCells_iff hblank]
  simp only [List.forall_mem_cons]
  constructor
  · rintro ⟨⟨hkey, -⟩, hfront, hbelly, hlong, -⟩
    refine ⟨hkey, fun bucket => ?_⟩
    cases bucket with
    | frontEnd => exact (setw_text_blanks_pos_iff _ _).mp hfront
    | belly => exact (setw_text_blanks_pos_iff _ _).mp hbelly
    | longEnd => exact (setw_text_blanks_pos_iff _ _).mp hlong
  · intro h
    have hfigure : ∀ bucket : Bucket, 0 < (setw 20 (figureText bucket (entry :: rest))).blanks :=
      fun bucket => (setw_text_blanks_pos_iff _ _).mpr (h.figures bucket)
    refine ⟨⟨h.key, Double.isWord_text _, Double.isWord_text _, Double.isWord_text _,
      hbond.productId.1, hbond.fixedCoupon, hdate _ hknown, Double.isWord_text _, ?_⟩,
      hfigure .frontEnd,
      hfigure .belly, hfigure .longEnd, by decide, by decide, by decide, by decide, ?_⟩
    · exact fun _ hc => by cases hc
    · exact fun _ hc => by cases hc

/-- Two rows of position.txt that read back are of one record. -/
theorem positionLine_inj {long : ℤ → ℤ} {persistKey persistKey' : String} {result result' : ℤ}
    {data data' : Position} (hknown : data.product ∈ knownBonds)
    (hknown' : data'.product ∈ knownBonds) (h : PositionFits long persistKey result data)
    (h' : PositionFits long persistKey' result' data')
    (hline : positionLine dateText garbage long persistKey result data =
      positionLine dateText garbage long persistKey' result' data') :
    persistKey = persistKey' ∧ data.product = data'.product ∧
      data.getAggregatePositionWith long result = data'.getAggregatePositionWith long result' ∧
      ∀ book ∈ ["TRSY1", "TRSY2", "TRSY3"], data.getPosition book = data'.getPosition book := by
  have hfields : positionFields dateText garbage long persistKey result data =
      positionFields dateText garbage long persistKey' result' data' := by
    rw [← (positionLine_words_iff hdate hknown).mpr h, hline,
      (positionLine_words_iff hdate hknown').mpr h']
  simp only [positionFields, List.cons_eq_cons, String.toList_inj, toString_int_inj] at hfields
  obtain ⟨hkey, hid, -, -, haggregate, h1, h2, h3, -⟩ := hfields
  refine ⟨hkey, ?_, haggregate, fun book hbook => ?_⟩
  · rw [← ofCusip_of_known hknown, ← ofCusip_of_known hknown', hid]
  · simp only [List.mem_cons, List.not_mem_nil, or_false] at hbook
    rcases hbook with rfl | rfl | rfl
    · exact h1
    · exact h2
    · exact h3

/-- **The rows of the two reports read back** exactly when they fit their columns: a row of
    position.txt splits into the key, the product, its coupon and maturity date, the aggregate and
    the three quantities, the first line of a block of risk.txt into the key, the three figures and
    the fields of the first product. Rows that fit are equal only if their records are. -/
theorem rows_readBack_iff (long : ℤ → ℤ) :
    (∀ persistKey result data, data.product ∈ knownBonds →
      (words isSpace (positionLine dateText garbage long persistKey result data) =
          positionFields dateText garbage long persistKey result data ↔
        PositionFits long persistKey result data)) ∧
    (∀ flag persistKey entry rest, entry.product ∈ knownBonds →
      (words isSpace (riskLine dateText garbage flag persistKey (entry :: rest)) =
          riskFields dateText garbage persistKey entry rest ↔
        RiskFits persistKey (entry :: rest))) ∧
    (∀ persistKey result data persistKey' result' data', data.product ∈ knownBonds →
      data'.product ∈ knownBonds → PositionFits long persistKey result data →
      PositionFits long persistKey' result' data' →
      positionLine dateText garbage long persistKey result data =
        positionLine dateText garbage long persistKey' result' data' →
      persistKey = persistKey' ∧ data.product = data'.product ∧
        data.getAggregatePositionWith long result = data'.getAggregatePositionWith long result' ∧
        ∀ book ∈ ["TRSY1", "TRSY2", "TRSY3"], data.getPosition book = data'.getPosition book) ∧
    (∀ flag persistKey entry rest flag' persistKey' entry' rest', entry.product ∈ knownBonds →
      entry'.product ∈ knownBonds → RiskFits persistKey (entry :: rest) →
      RiskFits persistKey' (entry' :: rest') →
      riskLine dateText garbage flag persistKey (entry :: rest) =
        riskLine dateText garbage flag' persistKey' (entry' :: rest') →
      riskFields dateText garbage persistKey entry rest =
        riskFields dateText garbage persistKey' entry' rest') := by
  refine ⟨fun persistKey result data hknown => positionLine_words_iff hdate hknown,
    fun flag persistKey entry rest hknown => riskLine_words_iff hdate flag hknown,
    fun persistKey result data persistKey' result' data' hknown hknown' h h' hline =>
      positionLine_inj hdate hknown hknown' h h' hline, ?_⟩
  intro flag persistKey entry rest flag' persistKey' entry' rest' hknown hknown' h h' hline
  rw [← (riskLine_words_iff hdate flag hknown).mpr h, hline,
    (riskLine_words_iff hdate flag' hknown').mpr h']

end Rows

/-- `YYYY-Mon-DD`. -/
def simpleDate : Option Date → String
  | none => "not-a-date-time"
  | some date =>
      toString date.year ++ "-" ++
        (match date.month with
          | .jan => "Jan" | .feb => "Feb" | .mar => "Mar" | .apr => "Apr" | .may => "May"
          | .jun => "Jun" | .jul => "Jul" | .aug => "Aug" | .sep => "Sep" | .oct => "Oct"
          | .nov => "Nov" | .dec => "Dec") ++ "-" ++
        String.ofList (digitsOf 2 date.day)

theorem isWord_simpleDate :
    ∀ bond ∈ knownBonds, IsWord isSpace (simpleDate bond.maturityDate).toList := by decide +kernel

/-- So many two-year notes bought into `TRSY1`, and so many into `TRSY2`. -/
def twoBooks (first second : ℤ) : Position :=
  (Position.ofTrade ⟨.ofCusip "912828M72", "T1", "TRSY1", first, .buy⟩).addTrade
    ⟨.ofCusip "912828M72", "T2", "TRSY2", second, .buy⟩

/-- The risk entry of so many two-year notes. -/
def twoYear (quantity : ℤ) : PV01 :=
  ⟨.ofCusip "912828M72", bondPV01 "912828M72", quantity⟩

theorem positionFits_twoBooks : PositionFits wrapLong "1" 0 (twoBooks 30000000 0) :=
  ⟨by decide, by decide +kernel, by decide +kernel⟩

theorem riskFits_twoYear : RiskFits "1" [twoYear 30000000] := by
  refine ⟨by decide, fun bucket => ?_⟩
  cases bucket <;> decide +kernel

/-- The theorem at one purchase of 30 million. -/
theorem rows_readBack_iff_purchase :
    (words isSpace (positionLine simpleDate 0 wrapLong "1" 0 (twoBooks 30000000 0)) =
        positionFields simpleDate 0 wrapLong "1" 0 (twoBooks 30000000 0) ↔
      PositionFits wrapLong "1" 0 (twoBooks 30000000 0)) ∧
    (words isSpace (riskLine simpleDate 0 false "1" [twoYear 30000000]) =
        riskFields simpleDate 0 "1" (twoYear 30000000) [] ↔
      RiskFits "1" [twoYear 30000000]) ∧
    (twoBooks 30000000 0).product = (twoBooks 30000000 0).product ∧
    riskFields simpleDate 0 "1" (twoYear 30000000) [] =
      riskFields simpleDate 0 "1" (twoYear 30000000) [] := by
  have hposition : (twoBooks 30000000 0).product ∈ knownBonds := by decide +kernel
  have hrisk : (twoYear 30000000).product ∈ knownBonds := by decide +kernel
  obtain ⟨hrow, hblock, hrows, hblocks⟩ :=
    @rows_readBack_iff simpleDate 0 isWord_simpleDate wrapLong
  exact ⟨hrow "1" 0 _ hposition, hblock false "1" _ [] hrisk,
    (hrows "1" 0 _ "1" 0 _ hposition hposition positionFits_twoBooks positionFits_twoBooks rfl).2.1,
    hblocks false "1" _ [] false "1" _ [] hrisk hrisk riskFits_twoYear riskFits_twoYear rfl⟩

/-- With a quantity of ten digits a row does not read back, and two records may have the same row;
    a bucket figure of thirteen digits runs into the key. -/
theorem merged_columns :
    words isSpace (positionLine simpleDate 0 wrapLong "1" 0 (twoBooks 1000000000 0)) ≠
        positionFields simpleDate 0 wrapLong "1" 0 (twoBooks 1000000000 0) ∧
      (words isSpace (positionLine simpleDate 0 wrapLong "1" 0 (twoBooks 1000000000 0))).map String.ofList =
        ["1", "912828M72", "0.875", "2017-Nov-30", "10000000001000000000", "0", "0"] ∧
      positionLine simpleDate 0 wrapLong "1" 0 (twoBooks 1111111111 11234567890) =
        positionLine simpleDate 0 wrapLong "1" 0 (twoBooks 11111111111 1234567890) ∧
      (twoBooks 1111111111 11234567890).getPosition "TRSY1" ≠
        (twoBooks 11111111111 1234567890).getPosition "TRSY1" ∧
      words isSpace (riskLine simpleDate 0 true "21" [twoYear 690000000000000]) ≠
        riskFields simpleDate 0 "21" (twoYear 690000000000000) [] ∧
      (words isSpace (riskLine simpleDate 0 true "21" [twoYear 690000000000000])).map String.ofList =
        ["2113625650800000.000000", "0.000000", "0.000000", "912828M72", "0.875000", "2017-Nov-30",
          "13625650800000.000000"] := by
  decide +kernel

/-- Two figures below a million million, which their sum is rounded up to. -/
example : (twoYear 50639783015709).risk + (1984 : ℤ) * bondPV01 "912828N22" < 10 ^ 12 ∧
    figureText .frontEnd [twoYear 50639783015709,
      ⟨.ofCusip "912828N22", bondPV01 "912828N22", 1984⟩] = "1000000000000.000000".toList := by
  decide +kernel

end BondTrading
