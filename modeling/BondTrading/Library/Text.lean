/-
  File:      BondTrading/Library/Text.lean
  Subject:   THE C++ STRING ROUTINES a line-oriented program reads its input with.

  Names nothing of the modelled program. Characters of a `std::string` are a `List Char`.

  * `strtol`, `stoi`, `stol` -- leading blanks, a sign, the longest run of digits; the rest of the
    text is ignored, no digit at all is `invalid_argument`, a value that does not fit is
    `out_of_range`;
  * `find`, `substr`;
  * `getline`, `getlines` -- one extraction, and the loop `while (getline(s, v, d))`
    (`getlines_eq` says that it is that loop), over any kind of characters;
  * `Digits`, `IntegerText`, `LongText` -- texts of digits and of signed numbers, and what the
    routines above answer on them; `LeadsWith` -- the number any text begins with, which is the one
    they read (`strtol_eq_some_iff`);
  * `readLines` -- the loop of a reader of comma-separated lines: split the line into a record that
    lives outside the loop, decode it, act on it, clear it (`readLines_eq_runAll`: on lines that
    decode it is a plain loop over the decoded data); `EveryLine` -- what holds of every line a
    reader gets to, `TakesOnly` -- that what is stored for a line is what the line says.
-/
import BondTrading.Library.Runs
import Mathlib.Data.List.TakeWhile

namespace Cxx

universe u v

/-! ## 1. Numbers -/

/-- `std::isspace` in the C locale. -/
def isSpace (c : Char) : Bool := c == ' ' || (9 ≤ c.toNat && c.toNat ≤ 13)

/-- The number the longest leading run of digits spells. -/
def leadingNumber (s : List Char) : Option Nat :=
  match s.takeWhile Char.isDigit with
  | [] => none
  | ds => some (Nat.ofDigitChars 10 ds 0)

/-- `std::strtol` in base 10, before its range is looked at. `none`: nothing was converted. -/
def strtol (s : List Char) : Option Int :=
  match s.dropWhile isSpace with
  | '-' :: t => (leadingNumber t).map fun n => -(n : Int)
  | '+' :: t => (leadingNumber t).map Int.ofNat
  | t => (leadingNumber t).map Int.ofNat

/-- The common body of `std::stoi` and `std::stol`: `strtol`, then the range of the result type. -/
def stoInteger (lo hi : Int) (s : List Char) : Except Stop Int :=
  match strtol s with
  | none => .error .invalidArgument
  | some n => if lo ≤ n ∧ n ≤ hi then .ok n else .error .outOfRange

def stoi (s : List Char) : Except Stop Int := stoInteger (-2147483648) 2147483647 s

def stol (s : List Char) : Except Stop Int :=
  stoInteger (-9223372036854775808) 9223372036854775807 s

/-- A non-empty text of digits. -/
def Digits (ds : List Char) : Prop := ds ≠ [] ∧ ∀ c ∈ ds, c.isDigit = true

instance (ds : List Char) : Decidable (Digits ds) :=
  decidable_of_iff ((!ds.isEmpty && ds.all Char.isDigit) = true) (by simp [Digits])

theorem digits_toDigits (n : Nat) : Digits (Nat.toDigits 10 n) :=
  ⟨Nat.toDigits_ne_nil, fun _ hc => Nat.isDigit_of_mem_toDigits (by omega) (by omega) hc⟩

/-- Decimal numerals tell numbers apart. -/
theorem repr_inj {m n : Nat} : Nat.repr m = Nat.repr n ↔ m = n := by
  refine ⟨fun h => ?_, fun h => h ▸ rfl⟩
  have hd : Nat.toDigits 10 m = Nat.toDigits 10 n := by
    rw [← Nat.toList_repr, ← Nat.toList_repr, h]
  rw [← Nat.ofDigitChars_ten_toDigits (n := m), ← Nat.ofDigitChars_ten_toDigits (n := n), hd]

theorem isDigit_toNat {c : Char} (h : c.isDigit = true) : 48 ≤ c.toNat ∧ c.toNat ≤ 57 := by
  simp only [Char.isDigit, Bool.and_eq_true, decide_eq_true_eq] at h
  exact ⟨h.1, h.2⟩

/-- A digit is no blank and no sign, and not the dash that ends an integer part. -/
theorem isDigit_ne {c : Char} (h : c.isDigit = true) :
    isSpace c = false ∧ c ≠ '-' ∧ c ≠ '+' := by
  have hn := isDigit_toNat h
  refine ⟨?_, ?_, ?_⟩
  · have h0 : c ≠ ' ' := by rintro rfl; simp at hn
    have h9 : ¬ c.toNat ≤ 13 := by omega
    simp [isSpace, h0, h9]
  · rintro rfl; simp at hn
  · rintro rfl; simp at hn

/-- The text behind a number that `strtol` leaves alone: it does not go on with a digit. -/
def EndsNumber (t : List Char) : Prop := ∀ c ∈ t.head?, c.isDigit = false

theorem endsNumber_nil : EndsNumber [] := fun _ h => by cases h

theorem endsNumber_cons {c : Char} {t : List Char} (h : c.isDigit = false) : EndsNumber (c :: t) :=
  fun _ hd => by cases hd; exact h

theorem takeWhile_digits {ds t : List Char} (hd : ∀ c ∈ ds, c.isDigit = true) (ht : EndsNumber t) :
    (ds ++ t).takeWhile Char.isDigit = ds := by
  rw [List.takeWhile_append_of_pos hd]
  cases t with
  | nil => simp
  | cons c t => simp [ht c rfl]

theorem leadingNumber_digits {ds t : List Char} (hd : Digits ds) (ht : EndsNumber t) :
    leadingNumber (ds ++ t) = some (Nat.ofDigitChars 10 ds 0) := by
  unfold leadingNumber
  rw [takeWhile_digits hd.2 ht]
  cases ds with
  | nil => exact absurd rfl hd.1
  | cons c ds => rfl

/-- **A text of digits is read as the number it spells.** -/
theorem strtol_digits {ds t : List Char} (hd : Digits ds) (ht : EndsNumber t) :
    strtol (ds ++ t) = some (Nat.ofDigitChars 10 ds 0 : Int) := by
  obtain ⟨c, ds, rfl⟩ := List.exists_cons_of_ne_nil hd.1
  obtain ⟨hs, hm, hp⟩ := isDigit_ne (hd.2 c List.mem_cons_self)
  have hdrop : ((c :: ds) ++ t).dropWhile isSpace = (c :: ds) ++ t := by
    simp [hs]
  have hlead := leadingNumber_digits hd ht
  unfold strtol
  rw [hdrop]
  split
  · rename_i e; simp at e; exact absurd e.1 hm
  · rename_i e; simp at e; exact absurd e.1 hp
  · rw [hlead]; rfl

theorem strtol_neg_digits {ds t : List Char} (hd : Digits ds) (ht : EndsNumber t) :
    strtol ('-' :: (ds ++ t)) = some (-(Nat.ofDigitChars 10 ds 0 : Int)) := by
  have hs : isSpace '-' = false := by decide
  simp [strtol, hs, leadingNumber_digits hd ht]

/-- `stoi` of a text of digits whose value fits an `int`. -/
theorem stoi_digits {ds t : List Char} (hd : Digits ds) (ht : EndsNumber t)
    (hn : Nat.ofDigitChars 10 ds 0 < 2147483648) :
    stoi (ds ++ t) = .ok (Nat.ofDigitChars 10 ds 0 : Int) := by
  unfold stoi stoInteger
  rw [strtol_digits hd ht]
  exact if_pos ⟨by omega, by omega⟩

theorem strtol_pos_digits {ds t : List Char} (hd : Digits ds) (ht : EndsNumber t) :
    strtol ('+' :: (ds ++ t)) = some (Nat.ofDigitChars 10 ds 0 : Int) := by
  have hs : isSpace '+' = false := by decide
  simp [strtol, hs, leadingNumber_digits hd ht]

/-- A decimal integer from its first character to its last: digits, behind a sign or not. -/
def IntegerText (s : List Char) (n : Int) : Prop :=
  ∃ ds, Digits ds ∧
    ((s = ds ∨ s = '+' :: ds) ∧ n = Nat.ofDigitChars 10 ds 0 ∨
      s = '-' :: ds ∧ n = -(Nat.ofDigitChars 10 ds 0 : Int))

theorem strtol_integerText {s : List Char} {n : Int} (h : IntegerText s n) :
    strtol s = some n := by
  obtain ⟨ds, hd, hs⟩ := h
  rcases hs with ⟨rfl | rfl, rfl⟩ | ⟨rfl, rfl⟩
  · have h := strtol_digits hd endsNumber_nil
    rwa [List.append_nil] at h
  · have h := strtol_pos_digits hd endsNumber_nil
    rwa [List.append_nil] at h
  · have h := strtol_neg_digits hd endsNumber_nil
    rwa [List.append_nil] at h

/-- `stol` of a decimal integer, if it gives one, gives that one. -/
theorem stol_integerText {s : List Char} {n m : Int} (h : IntegerText s n) (hm : stol s = .ok m) :
    m = n := by
  unfold stol stoInteger at hm
  rw [strtol_integerText h] at hm
  simp only at hm
  split_ifs at hm
  exact (Except.ok.inj hm).symm

/-- The number conversions throw exceptions and nothing else. -/
theorem stoInteger_ne_undefined {lo hi : Int} {s : List Char} :
    stoInteger lo hi s ≠ .error .undefined := by
  unfold stoInteger
  split
  · simp
  · split_ifs <;> simp

/-- A decimal number that fits a `long`: digits, or a minus sign and digits. -/
def LongText (s : List Char) (n : Int) : Prop :=
  ∃ ds, Digits ds ∧
    (s = ds ∧ n = Nat.ofDigitChars 10 ds 0 ∨ s = '-' :: ds ∧ n = -(Nat.ofDigitChars 10 ds 0 : Int)) ∧
    -9223372036854775808 ≤ n ∧ n ≤ 9223372036854775807

theorem LongText.integerText {s : List Char} {n : Int} (h : LongText s n) : IntegerText s n := by
  obtain ⟨ds, hd, hs, -⟩ := h
  rcases hs with ⟨hs, hn⟩ | hs
  · exact ⟨ds, hd, Or.inl ⟨Or.inl hs, hn⟩⟩
  · exact ⟨ds, hd, Or.inr hs⟩

theorem stol_longText {s : List Char} {n : Int} (h : LongText s n) : stol s = .ok n := by
  have hl := strtol_integerText h.integerText
  obtain ⟨ds, -, -, hr⟩ := h
  unfold stol stoInteger
  rw [hl]
  exact if_pos hr

theorem toList_toString_ofNat (m : Nat) :
    (toString (Int.ofNat m)).toList = Nat.toDigits 10 m := Nat.toList_repr

theorem toList_toString_negSucc (m : Nat) :
    (toString (Int.negSucc m)).toList = '-' :: Nat.toDigits 10 (m + 1) := by
  show ("-" ++ Nat.repr (m + 1)).toList = _
  rw [String.toList_append, Nat.toList_repr]
  rfl

/-- **An integer as `to_string` writes it** is such a number. -/
theorem longText_toString {n : Int} (hlo : -9223372036854775808 ≤ n)
    (hhi : n ≤ 9223372036854775807) : LongText (toString n).toList n := by
  cases n with
  | ofNat m =>
      refine ⟨Nat.toDigits 10 m, digits_toDigits m, Or.inl ⟨toList_toString_ofNat m, ?_⟩, hlo, hhi⟩
      rw [Nat.ofDigitChars_ten_toDigits]
      rfl
  | negSucc m =>
      refine ⟨Nat.toDigits 10 (m + 1), digits_toDigits (m + 1),
        Or.inr ⟨toList_toString_negSucc m, ?_⟩, hlo, hhi⟩
      rw [Nat.ofDigitChars_ten_toDigits]
      rfl

/-- `to_string` tells integers apart. -/
theorem toString_int_inj {m n : Int} : toString m = toString n ↔ m = n := by
  have hread : ∀ k : Int, strtol (toString k).toList = some k := by
    intro k
    refine strtol_integerText ?_
    cases k with
    | ofNat i =>
        refine ⟨Nat.toDigits 10 i, digits_toDigits i, Or.inl ⟨Or.inl (toList_toString_ofNat i), ?_⟩⟩
        rw [Nat.ofDigitChars_ten_toDigits]
        rfl
    | negSucc i =>
        refine ⟨Nat.toDigits 10 (i + 1), digits_toDigits (i + 1),
          Or.inr ⟨toList_toString_negSucc i, ?_⟩⟩
        rw [Nat.ofDigitChars_ten_toDigits]
        rfl
  refine ⟨fun h => ?_, fun h => h ▸ rfl⟩
  rw [← Option.some_inj, ← hread m, ← hread n, h]

/-- Such a number holds digits and a minus sign, and no other character. -/
theorem LongText.notMem {s : List Char} {n : Int} (h : LongText s n) {c : Char}
    (hdigit : c.isDigit = false) (hminus : c ≠ '-') : c ∉ s := by
  obtain ⟨ds, hd, hs, -⟩ := h
  have hds : c ∉ ds := fun hc => by
    rw [hd.2 c hc] at hdigit
    cases hdigit
  rcases hs with ⟨rfl, -⟩ | ⟨rfl, -⟩
  · exact hds
  · exact List.not_mem_cons_of_ne_of_not_mem hminus hds

/-- The text begins with the number: blanks, a sign or none, and the longest run of digits, which
    spells it. What follows does not matter. -/
def LeadsWith (s : List Char) (n : Int) : Prop :=
  ∃ blanks sign ds rest, s = blanks ++ sign ++ ds ++ rest ∧ (∀ c ∈ blanks, isSpace c = true) ∧
    Digits ds ∧ EndsNumber rest ∧
    ((sign = [] ∨ sign = ['+']) ∧ n = Nat.ofDigitChars 10 ds 0 ∨
      sign = ['-'] ∧ n = -(Nat.ofDigitChars 10 ds 0 : Int))

theorem strtol_blanks {blanks : List Char} (h : ∀ c ∈ blanks, isSpace c = true) (s : List Char) :
    strtol (blanks ++ s) = strtol s := by
  unfold strtol
  rw [List.dropWhile_append_of_pos h]

theorem leadingNumber_eq_some {s : List Char} {n : Nat} (h : leadingNumber s = some n) :
    ∃ ds rest, s = ds ++ rest ∧ Digits ds ∧ EndsNumber rest ∧ Nat.ofDigitChars 10 ds 0 = n := by
  have hds : Digits (s.takeWhile Char.isDigit) ∧
      Nat.ofDigitChars 10 (s.takeWhile Char.isDigit) 0 = n := by
    unfold leadingNumber at h
    split at h
    · cases h
    · rename_i ds hne
      exact ⟨⟨hne, fun c hc => List.mem_takeWhile_imp hc⟩, Option.some.inj h⟩
  refine ⟨s.takeWhile Char.isDigit, s.dropWhile Char.isDigit, List.takeWhile_append_dropWhile.symm,
    hds.1, fun c hc => ?_, hds.2⟩
  have hnot := List.head?_dropWhile_not Char.isDigit s
  rw [Option.mem_def.mp hc] at hnot
  exact hnot

/-- `strtol` converts nothing but what the text begins with. -/
theorem leadsWith_of_strtol {s : List Char} {n : Int} (h : strtol s = some n) : LeadsWith s n := by
  have hs : s = s.takeWhile isSpace ++ s.dropWhile isSpace := List.takeWhile_append_dropWhile.symm
  have hblanks : ∀ c ∈ s.takeWhile isSpace, isSpace c = true := fun c hc => List.mem_takeWhile_imp hc
  unfold strtol at h
  split at h
  · -- a minus sign
    rename_i t ht
    obtain ⟨_, hlead, rfl⟩ := Option.map_eq_some_iff.mp h
    obtain ⟨m, hm, hcast⟩ := Option.bind_eq_some_iff.mp hlead
    cases hcast
    obtain ⟨ds, rest, rfl, hd, hr, rfl⟩ := leadingNumber_eq_some hm
    refine ⟨s.takeWhile isSpace, ['-'], ds, rest, ?_, hblanks, hd, hr, Or.inr ⟨rfl, rfl⟩⟩
    rw [ht] at hs
    simpa using hs
  · -- a plus sign
    rename_i t ht
    obtain ⟨m, hm, rfl⟩ := Option.map_eq_some_iff.mp h
    obtain ⟨ds, rest, rfl, hd, hr, rfl⟩ := leadingNumber_eq_some hm
    refine ⟨s.takeWhile isSpace, ['+'], ds, rest, ?_, hblanks, hd, hr, Or.inl ⟨Or.inr rfl, rfl⟩⟩
    rw [ht] at hs
    simpa using hs
  · -- no sign
    obtain ⟨m, hm, rfl⟩ := Option.map_eq_some_iff.mp h
    obtain ⟨ds, rest, ht, hd, hr, rfl⟩ := leadingNumber_eq_some hm
    refine ⟨s.takeWhile isSpace, [], ds, rest, ?_, hblanks, hd, hr, Or.inl ⟨Or.inl rfl, rfl⟩⟩
    rw [ht] at hs
    simpa using hs

/-- **`strtol` reads the number a text begins with.** -/
theorem strtol_eq_some_iff {s : List Char} {n : Int} : strtol s = some n ↔ LeadsWith s n := by
  refine ⟨leadsWith_of_strtol, fun h => ?_⟩
  obtain ⟨blanks, sign, ds, rest, rfl, hblanks, hd, hr, hn⟩ := h
  rw [List.append_assoc, List.append_assoc, strtol_blanks hblanks]
  rcases hn with ⟨rfl | rfl, rfl⟩ | ⟨rfl, rfl⟩
  · exact strtol_digits hd hr
  · exact strtol_pos_digits hd hr
  · exact strtol_neg_digits hd hr

/-- The number conversions read the number a text begins with, if it fits. -/
theorem stoInteger_eq_ok_iff {lo hi : Int} {s : List Char} {n : Int} :
    stoInteger lo hi s = .ok n ↔ LeadsWith s n ∧ lo ≤ n ∧ n ≤ hi := by
  rw [← strtol_eq_some_iff]
  unfold stoInteger
  constructor
  · intro h
    split at h
    · cases h
    · rename_i m hm
      split_ifs at h with hfits
      cases h
      exact ⟨hm, hfits⟩
  · rintro ⟨hn, hfits⟩
    rw [hn]
    exact if_pos hfits

/-- The text begins with a number that fits an `int`. -/
def LeadsWithInt (s : List Char) (n : Int) : Prop :=
  LeadsWith s n ∧ -2147483648 ≤ n ∧ n ≤ 2147483647

theorem stoi_eq_ok_iff {s : List Char} {n : Int} : stoi s = .ok n ↔ LeadsWithInt s n :=
  stoInteger_eq_ok_iff

/-- The text begins with a number that fits a `long`. -/
def LeadsWithLong (s : List Char) (n : Int) : Prop :=
  LeadsWith s n ∧ -9223372036854775808 ≤ n ∧ n ≤ 9223372036854775807

theorem stol_eq_ok_iff {s : List Char} {n : Int} : stol s = .ok n ↔ LeadsWithLong s n :=
  stoInteger_eq_ok_iff

/-- Without a minus sign in the text the number it begins with is none below zero. -/
theorem LeadsWith.nonneg {s : List Char} {n : Int} (h : LeadsWith s n) (hminus : '-' ∉ s) :
    0 ≤ n := by
  obtain ⟨blanks, sign, ds, rest, rfl, -, -, -, hn⟩ := h
  rcases hn with ⟨-, rfl⟩ | ⟨rfl, -⟩
  · exact Int.natCast_nonneg _
  · exact absurd (by simp) hminus

/-! ## 2. Searching and cutting -/

/-- `s.find(c)`; `none` is `string::npos`. -/
def find (c : Char) (s : List Char) : Option Nat := s.findIdx? (· == c)

/-- `s.substr(pos, n)` for a `pos` inside the text. -/
def substr (s : List Char) (pos n : Nat) : List Char := (s.drop pos).take n

theorem find_append {c : Char} {s t : List Char} (h : c ∉ s) :
    find c (s ++ c :: t) = some s.length := by
  unfold find
  rw [List.findIdx?_append, List.findIdx?_eq_none_iff.mpr
    (fun x hx => by simp only [beq_eq_false_iff_ne]; exact fun e => h (e ▸ hx))]
  simp [List.findIdx?_cons]

theorem dash_notMem_digits {ds : List Char} (hd : Digits ds) : '-' ∉ ds :=
  fun h => (isDigit_ne (hd.2 _ h)).2.1 rfl

theorem substr_front (s t : List Char) : substr (s ++ t) 0 s.length = s := by
  simp [substr]

/-- What follows the separator behind `s`. -/
theorem substr_behind (s t : List Char) (c : Char) (n : Nat) :
    substr (s ++ c :: t) (s.length + 1) n = t.take n := by
  have h : List.drop (s.length + 1) s = [] := List.drop_eq_nil_of_le (Nat.le_succ _)
  simp [substr, List.drop_append, h]

/-! ## 3. Lines and fields -/

section Lines

variable {α : Type u} [DecidableEq α]

/-- One `getline(s, v, d)` on the rest `s` of a stream: `none` fails (nothing was left);
    otherwise the characters before the delimiter and the rest behind it. -/
def getline (d : α) : List α → Option (List α × List α)
  | [] => none
  | s => some (s.takeWhile (· != d), (s.dropWhile (· != d)).tail)

/-- What the loop `while (getline(s, v, d))` extracts. -/
def getlines (d : α) : List α → List (List α)
  | [] => []
  | c :: s =>
      if c = d then [] :: getlines d s
      else
        match getlines d s with
        | [] => [[c]]
        | v :: vs => (c :: v) :: vs

/-- **`getlines` is the loop over `getline`**: an extraction, then the loop on the rest. -/
theorem getlines_eq (d : α) (s : List α) :
    getlines d s =
      match getline d s with
      | none => []
      | some (v, rest) => v :: getlines d rest := by
  induction s with
  | nil => rfl
  | cons c s ih =>
      by_cases hc : c = d
      · simp [getlines, getline, hc]
      · have hcd : (c != d) = true := by simpa using hc
        cases s with
        | nil => simp [getlines, getline, hc, hcd]
        | cons c' s =>
            simp only [getline, getlines, hc, if_false, List.takeWhile_cons, List.dropWhile_cons,
              hcd, if_true] at ih ⊢
            rw [ih]

/-- A piece, its delimiter, and the rest. -/
theorem getlines_append {d : α} {v : List α} (h : d ∉ v) (s : List α) :
    getlines d (v ++ d :: s) = v :: getlines d s := by
  induction v with
  | nil => simp [getlines]
  | cons c v ih =>
      have hc : c ≠ d := fun e => h (e ▸ List.mem_cons_self)
      rw [List.cons_append, getlines, if_neg hc, ih fun hm => h (List.mem_cons_of_mem _ hm)]

/-- A text of finished lines. -/
def unlines (d : α) (lines : List (List α)) : List α := lines.flatMap fun v => v ++ [d]

/-- **Reading a text of finished lines gives the lines back.** -/
theorem getlines_unlines {d : α} {lines : List (List α)} (h : ∀ v ∈ lines, d ∉ v) :
    getlines d (unlines d lines) = lines := by
  induction lines with
  | nil => rfl
  | cons v lines ih =>
      show getlines d ((v ++ [d]) ++ unlines d lines) = _
      rw [List.append_assoc]
      show getlines d (v ++ d :: unlines d lines) = _
      rw [getlines_append (h v List.mem_cons_self), ih fun w hw => h w (List.mem_cons_of_mem _ hw)]

/-- Every delimiter ends a line. -/
theorem length_getlines_append (d : α) (v s : List α) :
    (getlines d (v ++ d :: s)).length = v.count d + 1 + (getlines d s).length := by
  induction v with
  | nil =>
      rw [List.nil_append, getlines, if_pos rfl, List.length_cons, List.count_nil]
      omega
  | cons c v ih =>
      rw [List.cons_append, getlines]
      split_ifs with hc
      · rw [List.length_cons, ih, hc, List.count_cons_self]
        omega
      · rw [List.count_cons_of_ne hc, ← ih]
        have hpos : getlines d (v ++ d :: s) ≠ [] := fun hnil => by
          rw [hnil, List.length_nil] at ih
          omega
        obtain ⟨w, ws, hw⟩ := List.exists_cons_of_ne_nil hpos
        rw [hw]
        rfl

/-- **Finished lines are as many lines only if no delimiter stands in one of them**, and never
    fewer. -/
theorem length_getlines_unlines (d : α) (lines : List (List α)) :
    lines.length ≤ (getlines d (unlines d lines)).length ∧
      ((getlines d (unlines d lines)).length = lines.length ↔ ∀ v ∈ lines, d ∉ v) := by
  induction lines with
  | nil => exact ⟨Nat.le_refl _, iff_of_true rfl fun _ h => by cases h⟩
  | cons v lines ih =>
      obtain ⟨hle, hiff⟩ := ih
      have hlength : (getlines d (unlines d (v :: lines))).length =
          v.count d + 1 + (getlines d (unlines d lines)).length := by
        rw [unlines, List.flatMap_cons, List.append_assoc]
        exact length_getlines_append d v (unlines d lines)
      rw [hlength, List.length_cons, List.forall_mem_cons, ← hiff, ← List.count_eq_zero]
      exact ⟨by omega, by omega⟩

/-- The last piece, which no delimiter ends. -/
theorem getlines_last {d : α} {v : List α} (h : d ∉ v) (hne : v ≠ []) : getlines d v = [v] := by
  induction v with
  | nil => exact absurd rfl hne
  | cons c v ih =>
      have hc : c ≠ d := fun e => h (e ▸ List.mem_cons_self)
      rw [getlines, if_neg hc]
      cases v with
      | nil => rfl
      | cons c' v => rw [ih (fun hm => h (List.mem_cons_of_mem _ hm)) (List.cons_ne_nil _ _)]

/-- **Reading separated lines gives the lines back**, if the last one, which nothing ends, is not
    empty. -/
theorem getlines_intercalate {d : α} {lines : List (List α)} (h : ∀ v ∈ lines, d ∉ v)
    (hlast : lines.getLast? ≠ some []) : getlines d (List.intercalate [d] lines) = lines := by
  induction lines with
  | nil => rfl
  | cons v lines ih =>
      have hv := h v List.mem_cons_self
      cases lines with
      | nil =>
          rw [List.intercalate_singleton]
          refine getlines_last hv fun hnil => hlast ?_
          rw [hnil]
          rfl
      | cons w lines =>
          rw [List.intercalate_cons_cons, List.append_assoc]
          show getlines d (v ++ d :: List.intercalate [d] (w :: lines)) = _
          rw [getlines_append hv, ih (fun u hu => h u (List.mem_cons_of_mem _ hu))
            (by rwa [List.getLast?_cons_cons] at hlast)]

omit [DecidableEq α] in
/-- What separated lines consist of. -/
theorem mem_intercalate {d c : α} {lines : List (List α)} (h : c ∈ List.intercalate [d] lines) :
    c = d ∨ ∃ v ∈ lines, c ∈ v := by
  induction lines with
  | nil => cases h
  | cons v lines ih =>
      cases lines with
      | nil =>
          rw [List.intercalate_singleton] at h
          exact Or.inr ⟨v, List.mem_cons_self, h⟩
      | cons w lines =>
          rw [List.intercalate_cons_cons, List.append_assoc] at h
          rcases List.mem_append.mp h with h | h
          · exact Or.inr ⟨v, List.mem_cons_self, h⟩
          · rcases List.mem_cons.mp h with h | h
            · exact Or.inl h
            · rcases ih h with h | ⟨u, hu, hc⟩
              · exact Or.inl h
              · exact Or.inr ⟨u, List.mem_cons_of_mem _ hu, hc⟩

omit [DecidableEq α] in
/-- The same lines, the last one ended too. -/
theorem intercalate_ended (d : α) {lines : List (List α)} (hne : lines ≠ []) :
    List.intercalate [d] lines ++ [d] = unlines d lines := by
  induction lines with
  | nil => exact absurd rfl hne
  | cons v lines ih =>
      cases lines with
      | nil =>
          rw [List.intercalate_singleton]
          exact (List.flatMap_singleton (fun v => v ++ [d]) v).symm
      | cons w lines =>
          rw [List.intercalate_cons_cons, List.append_assoc, ih (List.cons_ne_nil _ _)]
          rfl

end Lines

/-! ## 4. Readers of comma-separated lines -/

/-- The fields of a line: `while (getline(ss, temp, ',')) record.push_back(temp)`. -/
def fields (line : List Char) : List String := (getlines ',' line).map String.ofList

/-- `record[i]`: reading past the end is undefined. -/
def fieldAt (record : List String) (i : Nat) : Except Stop String :=
  match record[i]? with
  | some f => .ok f
  | none => .error .undefined

theorem fieldAt_eq {record : List String} {i : Nat} {f : String} (h : record[i]? = some f) :
    fieldAt record i = .ok f := by
  simp [fieldAt, h]

/-- A decoder that has got a field has found it. -/
theorem fieldAt_ok {record : List String} {i : Nat} {f : String} (h : fieldAt record i = .ok f) :
    record[i]? = some f := by
  unfold fieldAt at h
  split at h
  · rename_i g hg
    rw [hg, Except.ok.inj h]
  · cases h

/-- A decoder that has come to its end has got through its first step. -/
theorem bind_ok {α β : Type u} {x : Except Stop α} {f : α → Except Stop β} {b : β}
    (h : x >>= f = .ok b) : ∃ a, x = .ok a ∧ f a = .ok b := by
  cases x with
  | error why => cases h
  | ok a => exact ⟨a, rfl, h⟩

/-- The lines of a file behind its first one, which is read and dropped. -/
def dataLines (content : String) : List (List Char) :=
  match getline '\n' content.toList with
  | none => []
  | some (_, rest) => getlines '\n' rest

/-- The lines of the file, without the first. -/
theorem dataLines_eq (content : String) :
    dataLines content = (getlines '\n' content.toList).tail := by
  rw [dataLines, getlines_eq]
  cases getline '\n' content.toList with
  | none => rfl
  | some p => rfl

/-- A relation every element of a list has a partner in pairs the list up. -/
theorem exists_forall₂ {α : Type u} {β : Type v} {R : α → β → Prop} {as : List α}
    (h : ∀ a ∈ as, ∃ b, R a b) : ∃ bs, List.Forall₂ R as bs := by
  induction as with
  | nil => exact ⟨[], .nil⟩
  | cons a as ih =>
      obtain ⟨b, hb⟩ := h a List.mem_cons_self
      obtain ⟨bs, hbs⟩ := ih fun a ha => h a (List.mem_cons_of_mem _ ha)
      exact ⟨b :: bs, .cons hb hbs⟩

theorem exists_of_mem_forall₂ {α : Type u} {β : Type v} {R : α → β → Prop} {as : List α}
    {bs : List β} (h : List.Forall₂ R as bs) {b : β} (hb : b ∈ bs) : ∃ a ∈ as, R a b := by
  induction h with
  | nil => cases hb
  | @cons a b' as bs hr _ ih =>
      rcases List.mem_cons.mp hb with rfl | hb
      · exact ⟨a, List.mem_cons_self, hr⟩
      · obtain ⟨a', ha', hr'⟩ := ih hb
        exact ⟨a', List.mem_cons_of_mem _ ha', hr'⟩

/-- What a step put behind the things stored before it. -/
def added {σ : Type u} {β : Type v} (store : σ → List β) (s : σ) (o : Outcome σ) : List β :=
  (store o.state).drop (store s).length

/-- **Only what the text says is taken from a line**: no field is read that it does not have, and
    whatever is stored while it is read is something it spells. -/
def TakesOnly {σ : Type u} {β : Type v} (store : σ → List β) (Spells : List Char → β → Prop)
    (line : List Char) (s : σ) (o : Outcome σ) : Prop :=
  (∀ s', o ≠ .stopped .undefined s') ∧ ∀ b ∈ added store s o, Spells line b

/-- A step that stopped before it changed anything added nothing. -/
theorem added_stopped {σ : Type u} {β : Type v} (store : σ → List β) (why : Stop) (s : σ) :
    added store s (.stopped why s) = [] := List.drop_length

section Takes

variable {σ : Type u} {β : Type v} {store : σ → List β} {Spells : List Char → β → Prop}
  {line : List Char} {s : σ} {o : Outcome σ}

/-- A step that stores one thing takes only what the line says if that is something it spells. -/
theorem takesOnly_one {b : β} (hstore : store o.state = store s ++ [b])
    (hdefined : ∀ s', o ≠ .stopped .undefined s') :
    TakesOnly store Spells line s o ↔ Spells line b := by
  unfold TakesOnly added
  rw [hstore, List.drop_left]
  constructor
  · exact fun h => h.2 b (List.mem_singleton_self b)
  · exact fun h => ⟨hdefined, fun b' hb' => List.mem_singleton.mp hb' ▸ h⟩

/-- A step that stores nothing takes only what the line says. -/
theorem takesOnly_none (hstore : store o.state = store s)
    (hdefined : ∀ s', o ≠ .stopped .undefined s') : TakesOnly store Spells line s o := by
  unfold TakesOnly added
  rw [hstore, List.drop_length]
  exact ⟨hdefined, fun b hb => by cases hb⟩

end Takes

section Reader

variable {δ : Type u} {σ : Type v} (decode : List String → Except Stop δ)
  (act : δ → σ → Outcome σ)

/-- The body of a reader: the line's fields are pushed onto `record`, the record is decoded and
    acted on, and `record` is cleared. -/
def readLines : List String → List (List Char) → σ → Outcome σ
  | _, [], s => .done s
  | record, line :: lines, s =>
      match decode (record ++ fields line) with
      | .error why => .stopped why s
      | .ok d => (act d s).andThen (readLines [] lines)

/-- What the reader does with one line. -/
def lineStep (line : List Char) (s : σ) : Outcome σ :=
  match decode (fields line) with
  | .error why => .stopped why s
  | .ok d => act d s

theorem lineStep_ok {line : List Char} {d : δ} (h : decode (fields line) = .ok d) (s : σ) :
    lineStep decode act line s = act d s := by
  rw [lineStep, h]

theorem lineStep_error {line : List Char} {why : Stop} (h : decode (fields line) = .error why)
    (s : σ) : lineStep decode act line s = .stopped why s := by
  rw [lineStep, h]

/-- A line that does not decode is the last one. -/
theorem lineStep_ne_done {line : List Char} {why : Stop} (h : decode (fields line) = .error why)
    (s s' : σ) : lineStep decode act line s ≠ .done s' := by
  rw [lineStep_error decode act h]
  exact nofun

/-- **A reader is the loop over its lines**: the record is empty again when the next line comes. -/
theorem readLines_eq (lines : List (List Char)) (s : σ) :
    readLines decode act [] lines s = runAll (lineStep decode act) lines s := by
  induction lines generalizing s with
  | nil => rfl
  | cons line lines ih =>
      rw [readLines, List.nil_append, runAll_cons, lineStep]
      cases decode (fields line) with
      | error why => rfl
      | ok d =>
          show (act d s).andThen _ = (act d s).andThen _
          congr 1
          funext s'
          exact ih s'

/-- `P` holds of every line a reader gets to: of the line, of the state that reading the lines before
    it left, and of what reading it leaves behind. -/
def EveryLine (P : List Char → σ → Outcome σ → Prop) (lines : List (List Char)) (s : σ) : Prop :=
  ∀ pre line post s', lines = pre ++ line :: post → readLines decode act [] pre s = .done s' →
    P line s' (readLines decode act [] [line] s')

theorem everyLine_iff (P : List Char → σ → Outcome σ → Prop) (lines : List (List Char)) (s : σ) :
    EveryLine decode act P lines s ↔ EveryStep (lineStep decode act) P lines s := by
  unfold EveryLine
  rw [everyStep_iff_runAll]
  simp only [readLines_eq, runAll_singleton]

variable {decode act} in
/-- The first line is always reached. -/
theorem EveryLine.first {P : List Char → σ → Outcome σ → Prop} {line : List Char}
    {lines : List (List Char)} {s : σ} (h : EveryLine decode act P (line :: lines) s) :
    P line s (lineStep decode act line s) :=
  ((everyLine_iff decode act P (line :: lines) s).mp h).1

/-- **On lines that decode, a reader is the loop over the decoded data**: nothing is left in the
    record from an earlier line. -/
theorem readLines_eq_runAll {lines : List (List Char)} {ds : List δ}
    (h : List.Forall₂ (fun line d => decode (fields line) = .ok d) lines ds) (s : σ) :
    readLines decode act [] lines s = runAll act ds s := by
  induction h generalizing s with
  | nil => rfl
  | cons hd _ ih =>
      rw [readLines, List.nil_append, hd]
      simp only [runAll_cons]
      congr 1
      funext s
      exact ih s

variable {decode}

/-- **A file of lines that decode** is the loop over some data, of which everything is known that is
    known of each line's datum. -/
theorem readLines_decoded {κ : Type*} {f : List Char → κ} {g : δ → κ} {Q : δ → Prop}
    {lines : List (List Char)}
    (h : ∀ line ∈ lines, ∃ d, decode (fields line) = .ok d ∧ g d = f line ∧ Q d) :
    ∃ ds, (∀ (act : δ → σ → Outcome σ) (s : σ),
        readLines decode act [] lines s = runAll act ds s) ∧
      ds.map g = lines.map f ∧ ∀ d ∈ ds, Q d := by
  suffices hds : ∃ ds, List.Forall₂ (fun line d => decode (fields line) = .ok d) lines ds ∧
      ds.map g = lines.map f ∧ ∀ d ∈ ds, Q d by
    obtain ⟨ds, hall, hmap, hQ⟩ := hds
    exact ⟨ds, fun act s => readLines_eq_runAll decode act hall s, hmap, hQ⟩
  induction lines with
  | nil => exact ⟨[], .nil, rfl, fun d hd => by cases hd⟩
  | cons line lines ih =>
      obtain ⟨d, hd, hg, hQ⟩ := h line List.mem_cons_self
      obtain ⟨ds, hall, hmap, hQs⟩ := ih fun l hl => h l (List.mem_cons_of_mem _ hl)
      refine ⟨d :: ds, .cons hd hall, by rw [List.map_cons, List.map_cons, hg, hmap], ?_⟩
      intro d' hd'
      rcases List.mem_cons.mp hd' with rfl | hd'
      · exact hQ
      · exact hQs d' hd'

end Reader

end Cxx
