/-
  File:      BondTrading/Library/Columns.lean
  Subject:   ROWS OF PADDED COLUMNS: what `setw` and the number formats of a stream make of a row, and
             when the row can be split into its fields again.

  Names nothing of the modelled program.

  * `words` -- what a text splits into at runs of blanks; `IsWord` -- a text that stays whole;
  * `Cell`, `setCells` -- a row as cells, a number of blanks and a text each; `words_setCells_iff` --
    the words of a row are its texts exactly when these are words and blanks stand in front of all
    but the first;
  * `words_rows_iff` -- the same for a text of rows, read line by line;
  * `setw` -- padding, which counts bytes and never cuts;
  * `byteLength_toString_le_iff` -- how large a number is that fits a width;
  * `fixedText`, `defaultText` -- a floating-point number behind `fixed` and without a format flag,
    with the default precision of 6; `Double.text` -- with the sign that zero may have, too.
-/
import BondTrading.Library.Text
import BondTrading.Library.Numbers
import Mathlib.Data.List.DropRight

namespace Cxx

universe u

/-! ## 1. Words -/

section Words

variable {α : Type u} (blank : α → Bool)

/-- What a text splits into at runs of blanks. -/
def words (s : List α) : List (List α) := (s.splitOnP blank).filter fun w => !w.isEmpty

/-- A text that is one word. -/
def IsWord (w : List α) : Prop := w ≠ [] ∧ ∀ c ∈ w, blank c = false

instance (w : List α) : Decidable (IsWord blank w) :=
  decidable_of_iff ((!w.isEmpty && w.all fun c => !blank c) = true) (by simp [IsWord])

theorem words_append_blank {b : α} (hb : blank b = true) (s t : List α) :
    words blank (s ++ b :: t) = words blank s ++ words blank t := by
  unfold words
  rw [List.splitOnP_append_cons s t hb, List.filter_append]

variable {blank}

theorem words_word {w : List α} (h : IsWord blank w) : words blank w = [w] := by
  have hne : (!w.isEmpty) = true := by simpa using h.1
  unfold words
  rw [List.splitOnP_eq_singleton h.2]
  exact List.filter_cons_of_pos hne

/-- Blanks in front do not matter. -/
theorem words_blanks {b : α} (hb : blank b = true) (n : Nat) (t : List α) :
    words blank (List.replicate n b ++ t) = words blank t := by
  induction n with
  | zero => rfl
  | succ n ih =>
      rw [List.replicate_succ, List.cons_append]
      exact (words_append_blank blank hb [] _).trans ih

/-- A word, a blank, and the rest. -/
theorem words_word_append {w : List α} (h : IsWord blank w) {b : α} (hb : blank b = true)
    (t : List α) : words blank (w ++ b :: t) = w :: words blank t := by
  rw [words_append_blank blank hb, words_word h]
  rfl

theorem notBlank_of_mem_splitOnP {s w : List α} (h : w ∈ s.splitOnP blank) :
    ∀ c ∈ w, blank c = false := by
  induction s generalizing w with
  | nil =>
      rw [List.splitOnP_nil, List.mem_singleton] at h
      rw [h]
      exact fun c hc => by cases hc
  | cons a s ih =>
      rw [List.splitOnP_cons_eq_if_modifyHead] at h
      split_ifs at h with ha
      · rcases List.mem_cons.mp h with rfl | h
        · exact fun c hc => by cases hc
        · exact ih h
      · obtain ⟨v, vs, hv⟩ := List.exists_cons_of_ne_nil (List.splitOnP_ne_nil blank s)
        rw [hv] at h ih
        rcases List.mem_cons.mp h with rfl | h
        · intro c hc
          rcases List.mem_cons.mp hc with rfl | hc
          · simpa using ha
          · exact ih List.mem_cons_self c hc
        · exact ih (List.mem_cons_of_mem _ h)

/-- What a text splits into are words. -/
theorem isWord_of_mem_words {s w : List α} (h : w ∈ words blank s) : IsWord blank w := by
  obtain ⟨hmem, hne⟩ := List.mem_filter.mp h
  exact ⟨by simpa using hne, notBlank_of_mem_splitOnP hmem⟩

theorem IsWord.append {v w : List α} (hv : IsWord blank v) (hw : IsWord blank w) :
    IsWord blank (v ++ w) := by
  refine ⟨List.append_ne_nil_of_left_ne_nil hv.1 w, fun c hc => ?_⟩
  rcases List.mem_append.mp hc with hc | hc
  · exact hv.2 c hc
  · exact hw.2 c hc

/-! ## 2. Cells -/

/-- One column of a row: the blanks that were put in front of its text. -/
structure Cell (α : Type u) where
  blanks : Nat
  text : List α
  deriving DecidableEq, Repr

/-- The characters of a row. -/
def setCells (b : α) (cells : List (Cell α)) : List α :=
  cells.flatMap fun cell => List.replicate cell.blanks b ++ cell.text

theorem setCells_cons (b : α) (cell : Cell α) (cells : List (Cell α)) :
    setCells b (cell :: cells) =
      List.replicate cell.blanks b ++ (cell.text ++ setCells b cells) := by
  unfold setCells
  rw [List.flatMap_cons, List.append_assoc]

/-- Cells that stay apart: every text is a word, and blanks stand in front of all but the first. -/
def Apart (blank : α → Bool) (row : List (Cell α)) : Prop :=
  (∀ cell ∈ row, IsWord blank cell.text) ∧ ∀ cell ∈ row.tail, 0 < cell.blanks

theorem notMem_setCells {b d : α} {row : List (Cell α)} (hd : blank d = true) (hne : b ≠ d)
    (h : Apart blank row) : d ∉ setCells b row := by
  intro hmem
  obtain ⟨cell, hcell, hmem⟩ := List.mem_flatMap.mp hmem
  rcases List.mem_append.mp hmem with hmem | hmem
  · exact hne (List.eq_of_mem_replicate hmem).symm
  · have hnot := (h.1 cell hcell).2 d hmem
    rw [hd] at hnot
    cases hnot

variable {b : α} (hb : blank b = true)

include hb

/-- What a row begins with begins its first word. -/
theorem words_append_setCells {w : List α} (hw : IsWord blank w) {cells : List (Cell α)}
    (hcells : ∀ cell ∈ cells, IsWord blank cell.text) :
    ∃ u rest, words blank (w ++ setCells b cells) = (w ++ u) :: rest := by
  induction cells generalizing w with
  | nil => exact ⟨[], [], by rw [setCells, List.flatMap_nil, List.append_nil, words_word hw]⟩
  | cons cell cells ih =>
      have htext := hcells cell List.mem_cons_self
      have hrest := fun c hc => hcells c (List.mem_cons_of_mem _ hc)
      obtain ⟨_ | n, text⟩ := cell
      · -- nothing stands between: the two texts are one word
        obtain ⟨u, rest, h⟩ := ih (hw.append htext) hrest
        refine ⟨text ++ u, rest, ?_⟩
        rw [← List.append_assoc, ← h, List.append_assoc]
        rfl
      · refine ⟨[], words blank (List.replicate n b ++ (text ++ setCells b cells)), ?_⟩
        rw [setCells_cons, List.append_nil, List.replicate_succ, List.cons_append,
          words_word_append hw hb]

theorem words_append_setCells_iff {w : List α} (hw : IsWord blank w) {cells : List (Cell α)}
    (hcells : ∀ cell ∈ cells, IsWord blank cell.text) :
    words blank (w ++ setCells b cells) = w :: cells.map Cell.text ↔
      ∀ cell ∈ cells, 0 < cell.blanks := by
  induction cells generalizing w with
  | nil =>
      rw [setCells, List.flatMap_nil, List.append_nil, words_word hw]
      exact iff_of_true rfl fun _ h => by cases h
  | cons cell cells ih =>
      have htext := hcells cell List.mem_cons_self
      have hrest := fun c hc => hcells c (List.mem_cons_of_mem _ hc)
      rw [List.forall_mem_cons, List.map_cons]
      obtain ⟨_ | n, text⟩ := cell
      · -- the first word is longer than the first text
        refine iff_of_false (fun h => ?_) fun h => absurd h.1 (Nat.lt_irrefl 0)
        obtain ⟨u, rest, hu⟩ := words_append_setCells hb (hw.append htext) hrest
        rw [List.append_assoc] at hu
        have hhead := (List.cons_eq_cons.mp (hu.symm.trans h)).1
        rw [List.append_assoc, List.append_right_eq_self, List.append_eq_nil_iff] at hhead
        exact htext.1 hhead.1
      · rw [setCells_cons, List.replicate_succ, List.cons_append, words_word_append hw hb,
          words_blanks hb, List.cons_eq_cons, ih htext hrest]
        exact ⟨fun h => ⟨Nat.succ_pos n, h.2⟩, fun h => ⟨rfl, h.2⟩⟩

/-- **A row splits into its texts** exactly when they are words and blanks stand in front of all of
    them but the first. -/
theorem words_setCells_iff (cell : Cell α) (cells : List (Cell α)) :
    words blank (setCells b (cell :: cells)) = (cell :: cells).map Cell.text ↔
      (∀ c ∈ cell :: cells, IsWord blank c.text) ∧ ∀ c ∈ cells, 0 < c.blanks := by
  constructor
  · intro h
    have hwords : ∀ c ∈ cell :: cells, IsWord blank c.text := by
      intro c hc
      have hmem : c.text ∈ words blank (setCells b (cell :: cells)) :=
        h ▸ List.mem_map_of_mem hc
      exact isWord_of_mem_words hmem
    rw [setCells_cons, words_blanks hb, List.map_cons,
      words_append_setCells_iff hb (hwords cell List.mem_cons_self)
        fun c hc => hwords c (List.mem_cons_of_mem _ hc)] at h
    exact ⟨hwords, h⟩
  · rintro ⟨hwords, h⟩
    rw [setCells_cons, words_blanks hb, List.map_cons,
      words_append_setCells_iff hb (hwords cell List.mem_cons_self)
        fun c hc => hwords c (List.mem_cons_of_mem _ hc)]
    exact h

/-- **A row splits into its texts** exactly when they stay apart. -/
theorem words_row_iff (row : List (Cell α)) :
    words blank (setCells b row) = row.map Cell.text ↔ Apart blank row := by
  cases row with
  | nil => exact iff_of_true rfl ⟨fun _ h => (by cases h), fun _ h => (by cases h)⟩
  | cons cell cells => exact words_setCells_iff hb cell cells

/-- **A text of rows reads back**, line by line and word by word, exactly when all its rows do. -/
theorem words_rows_iff [DecidableEq α] {d : α} (hd : blank d = true) (hne : b ≠ d)
    (rows : List (List (Cell α))) :
    (getlines d (unlines d (rows.map (setCells b)))).map (words blank) =
        rows.map (List.map Cell.text) ↔ ∀ row ∈ rows, Apart blank row := by
  have hfree (h : ∀ line ∈ rows.map (setCells b), d ∉ line) :
      (getlines d (unlines d (rows.map (setCells b)))).map (words blank) =
        rows.map (List.map Cell.text) ↔ ∀ row ∈ rows, Apart blank row := by
    rw [getlines_unlines h, List.map_map, List.map_inj_left]
    exact forall₂_congr fun row _ => words_row_iff hb row
  constructor
  · intro h
    refine (hfree ((length_getlines_unlines d _).2.mp ?_)).mp h
    simpa using congrArg List.length h
  · intro h
    refine (hfree fun line hline => ?_).mpr h
    obtain ⟨row, hrow, rfl⟩ := List.mem_map.mp hline
    exact notMem_setCells hd hne (h row hrow)

end Words

/-! ## 3. Fields and numbers -/

/-- The bytes of a text, as UTF-8. -/
def byteLength (text : List Char) : Nat := (text.map Char.utf8Size).sum

theorem byteLength_append (s t : List Char) : byteLength (s ++ t) = byteLength s + byteLength t := by
  unfold byteLength
  rw [List.map_append, List.sum_append]

theorem byteLength_eq_length {text : List Char} (h : ∀ c ∈ text, c.utf8Size = 1) :
    byteLength text = text.length := by
  induction text with
  | nil => rfl
  | cons c text ih =>
      rw [List.forall_mem_cons] at h
      show c.utf8Size + byteLength text = text.length + 1
      rw [h.1, ih h.2, Nat.add_comm]

/-- A field behind `setw(width)`: blanks on the left until there are `width` bytes, and never less than
    the whole text. -/
def setw (width : Nat) (text : List Char) : Cell Char := ⟨width - byteLength text, text⟩

theorem setw_blanks_pos_iff (width : Nat) (text : List Char) :
    0 < (setw width text).blanks ↔ byteLength text < width := Nat.sub_pos_iff_lt

/-- What a number is written in: digits, and a minus sign or a point. -/
def InNumber (c : Char) : Prop := c.isDigit = true ∨ c = '-' ∨ c = '.'

theorem isWord_of_number {text : List Char} (hne : text ≠ []) (h : ∀ c ∈ text, InNumber c) :
    IsWord isSpace text := by
  refine ⟨hne, fun c hc => ?_⟩
  rcases h c hc with hdigit | rfl | rfl
  · exact (isDigit_ne hdigit).1
  · decide
  · decide

/-- These characters are one byte each. -/
theorem byteLength_of_number {text : List Char} (h : ∀ c ∈ text, InNumber c) :
    byteLength text = text.length := by
  refine byteLength_eq_length fun c hc => ?_
  rcases h c hc with hdigit | rfl | rfl
  · unfold Char.isDigit at hdigit
    rw [Bool.and_eq_true, decide_eq_true_iff, decide_eq_true_iff] at hdigit
    exact if_pos (UInt32.le_trans hdigit.2 (by decide))
  · decide
  · decide

theorem inNumber_toDigits (m : Nat) : ∀ c ∈ Nat.toDigits 10 m, InNumber c := fun c hc =>
  Or.inl ((digits_toDigits m).2 c hc)

theorem inNumber_toString (n : ℤ) : ∀ c ∈ (toString n).toList, InNumber c := by
  cases n with
  | ofNat m =>
      rw [toList_toString_ofNat]
      exact inNumber_toDigits m
  | negSucc m =>
      rw [toList_toString_negSucc, List.forall_mem_cons]
      exact ⟨Or.inr (Or.inl rfl), inNumber_toDigits (m + 1)⟩

theorem isWord_toString (n : ℤ) : IsWord isSpace (toString n).toList := by
  refine isWord_of_number ?_ (inNumber_toString n)
  cases n with
  | ofNat m =>
      rw [toList_toString_ofNat]
      exact (digits_toDigits m).1
  | negSucc m =>
      rw [toList_toString_negSucc]
      exact List.cons_ne_nil _ _

/-- **The numbers that fit a width**: a minus sign takes the place of a digit. -/
theorem byteLength_toString_le_iff (n : ℤ) {w : Nat} (hw : 2 ≤ w) :
    byteLength (toString n).toList ≤ w ↔ -(10 : ℤ) ^ (w - 1) < n ∧ n < (10 : ℤ) ^ w := by
  rw [byteLength_of_number (inNumber_toString n)]
  have hpos : (0 : ℤ) < 10 ^ (w - 1) := by positivity
  have hpos' : (0 : ℤ) < 10 ^ w := by positivity
  cases n with
  | ofNat m =>
      rw [toList_toString_ofNat, Nat.length_toDigits_le_iff (by decide) (by omega)]
      have hcast : ((10 ^ w : Nat) : ℤ) = (10 : ℤ) ^ w := by push_cast; rfl
      have hm : Int.ofNat m = (m : ℤ) := rfl
      rw [hm]
      constructor
      · intro h
        exact ⟨by omega, by rw [← hcast]; exact_mod_cast h⟩
      · intro h
        rw [← hcast] at h
        exact_mod_cast h.2
  | negSucc m =>
      have hcast : ((10 ^ (w - 1) : Nat) : ℤ) = (10 : ℤ) ^ (w - 1) := by push_cast; rfl
      have hfits : (Nat.toDigits 10 (m + 1)).length + 1 ≤ w ↔ m + 1 < 10 ^ (w - 1) := by
        rw [← Nat.length_toDigits_le_iff (by decide) (by omega)]
        omega
      rw [toList_toString_negSucc, List.length_cons, hfits, ← hcast, Int.negSucc_eq]
      constructor
      · intro h
        exact ⟨by omega, by omega⟩
      · intro h
        omega

/-- The digits of `n`, with zeros in front if there are fewer than `k`. -/
def digitsOf (k n : Nat) : List Char :=
  List.replicate (k - (Nat.toDigits 10 n).length) '0' ++ Nat.toDigits 10 n

/-- A floating-point number behind `fixed`: six digits behind the point. -/
def fixedText (q : ℚ) : List Char :=
  let millionths := (roundEven ((if q < 0 then -q else q) * 1000000)).toNat
  (if q < 0 then ['-'] else []) ++ Nat.toDigits 10 (millionths / 1000000) ++
    '.' :: digitsOf 6 (millionths % 1000000)

/-- `m / 10^k`, without zeros at the end, and without the point if nothing is left behind it. -/
def pointText (k m : Nat) : List Char :=
  let behind := (digitsOf k (m % 10 ^ k)).rdropWhile (· == '0')
  Nat.toDigits 10 (m / 10 ^ k) ++ if behind.isEmpty then [] else '.' :: behind

/-- A floating-point number without a format flag: six significant digits, with an exponent if the
    number is below a ten thousandth or has more than six digits in front of the point. -/
def defaultText (q : ℚ) : List Char :=
  if q = 0 then ['0']
  else
    let a := if q < 0 then -q else q
    let e := Int.log 10 a
    let m := (roundEven (a * (10 : ℚ) ^ (5 - e))).toNat
    -- rounding up may reach the next power of ten
    let (m, e) := if m = 1000000 then (100000, e + 1) else (m, e)
    (if q < 0 then ['-'] else []) ++
      if -4 ≤ e ∧ e < 6 then pointText (5 - e).toNat m
      else pointText 5 m ++ 'e' :: (if e < 0 then '-' else '+') :: digitsOf 2 e.natAbs

example : [7 / 8, 1 / 3, 1234567, 1 / 20000].map (fun q => String.ofList (defaultText q)) =
    ["0.875", "0.333333", "1.23457e+06", "5e-05"] := by decide +kernel

theorem inNumber_digitsOf (k n : Nat) : ∀ c ∈ digitsOf k n, InNumber c := by
  intro c hc
  rcases List.mem_append.mp hc with hc | hc
  · rw [List.eq_of_mem_replicate hc]
    exact Or.inl rfl
  · exact inNumber_toDigits n c hc

theorem inNumber_fixedText (q : ℚ) : ∀ c ∈ fixedText q, InNumber c := by
  unfold fixedText
  simp only [List.forall_mem_append, List.forall_mem_cons]
  refine ⟨⟨fun c hc => ?_, inNumber_toDigits _⟩, Or.inr (Or.inr rfl), inNumber_digitsOf _ _⟩
  split_ifs at hc
  · exact Or.inr (Or.inl (List.mem_singleton.mp hc))
  · cases hc

theorem isWord_fixedText (q : ℚ) : IsWord isSpace (fixedText q) :=
  isWord_of_number (List.append_ne_nil_of_right_ne_nil _ (List.cons_ne_nil _ _)) (inNumber_fixedText q)

/-- A floating-point number in one of these formats; a negative zero has its sign. -/
def Double.text (format : ℚ → List Char) (d : Double) : List Char :=
  if d.value = 0 ∧ d.minus = true then '-' :: format 0 else format d.value

theorem Double.inNumber_text (d : Double) : ∀ c ∈ d.text fixedText, InNumber c := by
  unfold Double.text
  split_ifs
  · rw [List.forall_mem_cons]
    exact ⟨Or.inr (Or.inl rfl), inNumber_fixedText 0⟩
  · exact inNumber_fixedText d.value

theorem Double.isWord_text (d : Double) : IsWord isSpace (d.text fixedText) := by
  refine isWord_of_number ?_ d.inNumber_text
  unfold Double.text
  split_ifs
  · exact List.cons_ne_nil _ _
  · exact (isWord_fixedText d.value).1

end Cxx
