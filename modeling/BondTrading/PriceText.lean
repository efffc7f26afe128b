/-
  File:      BondTrading/PriceText.lean
  Subject:   WHAT THE TWO PRICE NOTATIONS SAY TO EACH OTHER.

  * `tickPrice I x z` -- the price `I + x/32 + z/256`; `PriceText s I x z` -- the text `I-xyz`;
  * `decimalBondPrice_split` -- the reader on any text with a dash; `decimalBondPrice_priceText` -- it
    gives every text `I-xyz` its price;
  * `TickText`, `Denotes`, `PriceThrows` -- such texts with any `I`, and the texts the reader throws
    on (`decimalBondPrice_cases`);
  * `fractionalBondPrice_tick` -- the writer drops the digits: of a tick price it keeps the integer
    part, the dash and the padding zero;
  * `fractional_roundTrip` -- so no tick price survives the round trip through both notations.
-/
import BondTrading.Products
import Mathlib.Tactic.Linarith
import Mathlib.Tactic.Positivity

namespace BondTrading

open Cxx

/-- The price of `I` whole points, `x` 32nds and `z` 256ths. -/
def tickPrice (I x z : Nat) : ℚ := I + x / 32 + z / 256

/-! ## 1. Reading `I-xyz` -/

/-- **The text `I-xyz`**: digits spelling `I` (leading zeros allowed) below 2^31, a dash, two
    digits spelling `x ≤ 31`, and one digit `z ≤ 7` or `+` for 4. -/
def PriceText (s : String) (I x z : Nat) : Prop :=
  ∃ ds a b c, s.toList = ds ++ '-' :: [a, b, c] ∧ Digits ds ∧ Nat.ofDigitChars 10 ds 0 = I ∧
    I < 2147483648 ∧ Digits [a, b] ∧ Nat.ofDigitChars 10 [a, b] 0 = x ∧ x ≤ 31 ∧
    lastDigit c = z ∧ z ≤ 7

/-- The reader on a text with a dash: `decimal1` comes from the two characters behind the dash,
    `decimal2` from the last one. -/
theorem decimalBondPrice_split {price : String} {front back : List Char}
    (hp : price.toList = front ++ '-' :: back) (hfront : '-' ∉ front) :
    decimalBondPrice price =
      (stoi front).bind fun intPart => (stoi (back.take 2)).bind fun decimal1 =>
        if intPart < 0 ∨ decimal1 > 31 ∨ decimal1 < 0 ∨ lastDigit (price.toList.getLastD '-') > 7 ∨
            lastDigit (price.toList.getLastD '-') < 0 then .ok 0
        else .ok ((decimal1 : ℚ) / 32 + (lastDigit (price.toList.getLastD '-') : ℚ) / 256 +
          intPart) := by
  unfold decimalBondPrice
  rw [hp, find_append hfront]
  simp only [substr_front, substr_behind]
  rfl

/-- The same on a text whose integer part is digits. -/
theorem decimalBondPrice_dash {price : String} {ds t : List Char}
    (hp : price.toList = ds ++ '-' :: t) (hd : Digits ds)
    (hn : Nat.ofDigitChars 10 ds 0 < 2147483648) :
    decimalBondPrice price =
      (stoi (t.take 2)).bind fun decimal1 =>
        if decimal1 > 31 ∨ decimal1 < 0 ∨ lastDigit (price.toList.getLastD '-') > 7 ∨
            lastDigit (price.toList.getLastD '-') < 0 then .ok 0
        else .ok ((decimal1 : ℚ) / 32 + (lastDigit (price.toList.getLastD '-') : ℚ) / 256 +
          ((Nat.ofDigitChars 10 ds 0 : ℤ) : ℚ)) := by
  have hstoi : stoi ds = .ok (Nat.ofDigitChars 10 ds 0 : ℤ) := by
    have h := stoi_digits hd endsNumber_nil hn
    rwa [List.append_nil] at h
  have hpos : ¬ ((Nat.ofDigitChars 10 ds 0 : ℤ) < 0) := by omega
  rw [decimalBondPrice_split hp (dash_notMem_digits hd), hstoi]
  simp only [Except.bind, hpos, false_or]

/-- **The reader is exact on `I-xyz`.** -/
theorem decimalBondPrice_priceText {s : String} {I x z : Nat} (h : PriceText s I x z) :
    decimalBondPrice s = .ok (tickPrice I x z) := by
  obtain ⟨ds, a, b, c, hs, hd, rfl, hI, hab, rfl, hx, hc, hz⟩ := h
  have hlast : s.toList.getLastD '-' = c := by rw [hs]; simp
  have hstoi : stoi [a, b] = .ok (Nat.ofDigitChars 10 [a, b] 0 : ℤ) :=
    stoi_digits (t := []) hab endsNumber_nil (by omega)
  rw [decimalBondPrice_dash hs hd hI, hlast, hc]
  simp only [List.take_succ_cons, List.take_zero, hstoi, Except.bind]
  rw [if_neg (by omega)]
  simp only [tickPrice, Int.cast_natCast, Except.ok.injEq]
  ring

theorem PriceText.bounds {s : String} {I x z : Nat} (h : PriceText s I x z) : x ≤ 31 ∧ z ≤ 7 := by
  obtain ⟨ds, a, b, c, -, -, -, -, -, -, hx, -, hz⟩ := h
  exact ⟨hx, hz⟩

/-- The text `I-xyz` with any `I`, as large as it likes. -/
def TickText (s : String) (I x z : Nat) : Prop :=
  ∃ ds a b c, s.toList = ds ++ '-' :: [a, b, c] ∧ Digits ds ∧ Nat.ofDigitChars 10 ds 0 = I ∧
    Digits [a, b] ∧ Nat.ofDigitChars 10 [a, b] 0 = x ∧ x ≤ 31 ∧ lastDigit c = z ∧ z ≤ 7

theorem TickText.priceText {s : String} {I x z : Nat} (h : TickText s I x z)
    (hI : I < 2147483648) : PriceText s I x z := by
  obtain ⟨ds, a, b, c, hs, hd, hn, hab, hx, hx31, hc, hz⟩ := h
  exact ⟨ds, a, b, c, hs, hd, hn, hI, hab, hx, hx31, hc, hz⟩

/-- The text denotes the price. -/
def Denotes (s : String) (price : ℚ) : Prop :=
  ∃ I x z, TickText s I x z ∧ price = tickPrice I x z

theorem Denotes.dash_mem {s : String} {price : ℚ} (h : Denotes s price) : '-' ∈ s.toList := by
  obtain ⟨I, x, z, ⟨ds, a, b, c, hs, -⟩, -⟩ := h
  rw [hs]
  exact List.mem_append_right _ List.mem_cons_self

/-- One of the two number conversions of the reader throws: there is a dash, and what is in front
    of it or behind it does not begin with a number that fits an `int`. -/
def PriceThrows (s : String) : Prop :=
  ∃ dash why, find '-' s.toList = some dash ∧
    (stoi (substr s.toList 0 dash) = .error why ∨
      stoi (substr s.toList (dash + 1) 2) = .error why)

/-- **What the reader makes of any text**: an exception or a number. -/
theorem decimalBondPrice_cases (s : String) :
    (PriceThrows s ∧ ∃ why, decimalBondPrice s = .error why) ∨
      (¬ PriceThrows s ∧ ∃ price, decimalBondPrice s = .ok price) := by
  unfold decimalBondPrice
  cases hdash : find '-' s.toList with
  | none =>
      refine Or.inr ⟨fun h => ?_, 0, rfl⟩
      obtain ⟨dash, why, hfound, -⟩ := h
      rw [hdash] at hfound
      cases hfound
  | some dash =>
      cases h₀ : stoi (substr s.toList 0 dash) with
      | error why =>
          refine Or.inl ⟨⟨dash, why, hdash, Or.inl h₀⟩, why, ?_⟩
          simp only [h₀, bind, Except.bind]
      | ok intPart =>
          cases h₁ : stoi (substr s.toList (dash + 1) 2) with
          | error why =>
              refine Or.inl ⟨⟨dash, why, hdash, Or.inr h₁⟩, why, ?_⟩
              simp only [h₀, h₁, bind, Except.bind]
          | ok decimal1 =>
              refine Or.inr ⟨fun h => ?_, ?_⟩
              · obtain ⟨dash', why, hfound, h⟩ := h
                rw [hdash] at hfound
                rw [← Option.some.inj hfound, h₀, h₁] at h
                rcases h with h | h
                · cases h
                · cases h
              · simp only [h₀, h₁, bind, Except.bind]
                split_ifs
                · exact ⟨_, rfl⟩
                · exact ⟨_, rfl⟩

theorem decimalBondPrice_error_iff (s : String) :
    (∃ why, decimalBondPrice s = .error why) ↔ PriceThrows s := by
  rcases decimalBondPrice_cases s with ⟨hthrows, herror⟩ | ⟨hthrows, price, hprice⟩
  · exact ⟨fun _ => hthrows, fun _ => herror⟩
  · refine ⟨fun h => ?_, fun h => absurd h hthrows⟩
    obtain ⟨why, h⟩ := h
    rw [hprice] at h
    cases h

/-- A text that is read as some price does not throw. -/
theorem not_priceThrows {s : String} {price : ℚ} (h : decimalBondPrice s = .ok price) :
    ¬ PriceThrows s := by
  intro hthrows
  obtain ⟨why, herror⟩ := (decimalBondPrice_error_iff s).mpr hthrows
  rw [h] at herror
  cases herror

theorem decimalBondPrice_ok_iff (s : String) :
    (∃ price, decimalBondPrice s = .ok price) ↔ ¬ PriceThrows s := by
  refine ⟨fun h => not_priceThrows h.choose_spec, fun h => ?_⟩
  rcases decimalBondPrice_cases s with ⟨hthrows, -⟩ | ⟨-, hprice⟩
  · exact absurd hthrows h
  · exact hprice

/-- Digits that spell too large a number throw. -/
theorem stoi_digits_large {ds : List Char} (hd : Digits ds)
    (hn : 2147483648 ≤ Nat.ofDigitChars 10 ds 0) : stoi ds = .error .outOfRange := by
  have hl := strtol_digits hd endsNumber_nil
  rw [List.append_nil] at hl
  unfold stoi stoInteger
  rw [hl]
  exact if_neg (by omega)

/-- **Of the texts `I-xyz` those throw whose `I` does not fit an `int`.** -/
theorem TickText.priceThrows_iff {s : String} {I x z : Nat} (h : TickText s I x z) :
    PriceThrows s ↔ 2147483648 ≤ I := by
  rw [← decimalBondPrice_error_iff]
  refine ⟨fun herror => ?_, fun hI => ?_⟩
  · obtain ⟨why, herror⟩ := herror
    by_contra hlt
    rw [decimalBondPrice_priceText (h.priceText (by omega))] at herror
    cases herror
  · obtain ⟨ds, a, b, c, hs, hd, rfl, -⟩ := h
    refine ⟨.outOfRange, ?_⟩
    rw [decimalBondPrice_split hs (dash_notMem_digits hd), stoi_digits_large hd hI]
    rfl

/-- What is read from a text `I-xyz` is its price. -/
theorem TickText.value {s : String} {I x z : Nat} (h : TickText s I x z) {price : ℚ}
    (hp : decimalBondPrice s = .ok price) : price = tickPrice I x z := by
  by_cases hI : I < 2147483648
  · rw [decimalBondPrice_priceText (h.priceText hI)] at hp
    exact (Except.ok.inj hp).symm
  · obtain ⟨why, herror⟩ :=
      (decimalBondPrice_error_iff s).mpr (h.priceThrows_iff.mpr (by omega))
    rw [hp] at herror
    cases herror

/-- A text of the form `I-xyz`, whatever its digits: `I` fits an `int`, and `z` may be `+`. -/
def PriceForm (s : String) : Prop :=
  ∃ ds a b c, s.toList = ds ++ '-' :: [a, b, c] ∧ Digits ds ∧
    Nat.ofDigitChars 10 ds 0 < 2147483648 ∧ Digits [a, b] ∧ (c.isDigit = true ∨ c = '+')

/-- Two digits spell a number below 100. -/
theorem twoDigits_lt {a b : Char} (h : Digits [a, b]) : Nat.ofDigitChars 10 [a, b] 0 < 100 := by
  have ha := isDigit_toNat (h.2 a (by simp))
  have hb := isDigit_toNat (h.2 b (by simp))
  have h0 : ('0' : Char).toNat = 48 := rfl
  simp only [Nat.ofDigitChars, List.foldl_cons, List.foldl_nil, h0]
  omega

/-- **The reader throws on no text of the form `I-xyz`**: out-of-range digits make it answer 0. -/
theorem decimalBondPrice_form {s : String} (h : PriceForm s) :
    ∃ price, decimalBondPrice s = .ok price := by
  obtain ⟨ds, a, b, c, hs, hd, hI, hab, -⟩ := h
  have htwo := twoDigits_lt hab
  have hstoi : stoi [a, b] = .ok (Nat.ofDigitChars 10 [a, b] 0 : ℤ) :=
    stoi_digits (t := []) hab endsNumber_nil (by omega)
  rw [decimalBondPrice_dash hs hd hI]
  simp only [List.take_succ_cons, List.take_zero, hstoi, Except.bind]
  split_ifs
  · exact ⟨_, rfl⟩
  · exact ⟨_, rfl⟩

/-- Read as a `long`, such a text is its integer part. -/
theorem stol_form {s : String} (h : PriceForm s) : ∃ n, stol s.toList = .ok n := by
  obtain ⟨ds, a, b, c, hs, hd, hI, -, -⟩ := h
  refine ⟨(Nat.ofDigitChars 10 ds 0 : ℤ), ?_⟩
  unfold stol stoInteger
  rw [hs, strtol_digits hd (endsNumber_cons (by decide))]
  exact if_pos ⟨by omega, by omega⟩

/-! ## 2. Writing a tick price -/

section Ticks

variable {I x z : Nat}

theorem tick_fraction_bounds (hx : x ≤ 31) (hz : z ≤ 7) :
    (0 : ℚ) ≤ x / 32 + z / 256 ∧ (x : ℚ) / 32 + z / 256 < 1 := by
  have hx' : (x : ℚ) ≤ 31 := by exact_mod_cast hx
  have hz' : (z : ℚ) ≤ 7 := by exact_mod_cast hz
  exact ⟨by positivity, by linarith⟩

theorem truncate_tick (hx : x ≤ 31) (hz : z ≤ 7) : truncate (tickPrice I x z) = I := by
  obtain ⟨h0, h1⟩ := tick_fraction_bounds hx hz
  have hp : (0 : ℚ) ≤ tickPrice I x z := by unfold tickPrice; positivity
  unfold truncate
  rw [if_pos hp, Int.floor_eq_iff]
  unfold tickPrice
  push_cast
  constructor <;> linarith

theorem truncate_intCast (n : ℤ) : truncate (n : ℚ) = n := by
  unfold truncate
  split_ifs <;> simp

theorem castInt_intCast {n : ℤ} (hlo : -2147483648 ≤ n) (hhi : n ≤ 2147483647) :
    castInt (n : ℚ) = n := by
  unfold castInt
  rw [truncate_intCast, if_pos ⟨hlo, hhi⟩]

/-- The 32nds of a tick price, before they are looked at. -/
theorem floor_tick_32nds (hz : z ≤ 7) :
    ⌊(tickPrice I x z - ((I : ℤ) : ℚ)) * 32⌋ = x := by
  have hz' : (z : ℚ) ≤ 7 := by exact_mod_cast hz
  have hz0 : (0 : ℚ) ≤ z := by positivity
  rw [Int.floor_eq_iff]
  unfold tickPrice
  push_cast
  constructor <;> linarith

/-- **What the writer makes of a tick price.** -/
theorem fractionalBondPrice_tick (hI : I < 2147483648) (hx : x ≤ 31) (hz : z ≤ 7) :
    fractionalBondPrice (tickPrice I x z) =
      if x < 10 then Nat.repr I ++ "-" ++ "0" else Nat.repr I ++ "-" := by
  have hc : castInt ((x : ℤ) : ℚ) = x := castInt_intCast (by omega) (by omega)
  have hi : castInt (((I : ℤ) : ℚ)) = I := castInt_intCast (by omega) (by omega)
  unfold fractionalBondPrice
  simp only [truncate_tick hx hz, floor_tick_32nds hz, hc, hi]
  have hlt : ((x : ℤ) < 10) ↔ x < 10 := by omega
  simp only [hlt]
  rfl

end Ticks

/-! ## 3. The round trip -/

/-- The canonical text of a tick price; `plus` writes a last digit 4 as `+`. -/
def canonicalText (I x z : Nat) (plus : Bool) : String :=
  Nat.repr I ++ "-" ++ String.ofList [Nat.digitChar (x / 10), Nat.digitChar (x % 10),
    if plus && z == 4 then '+' else Nat.digitChar z]

/-- Number to text to number gives the price back. -/
def DecodesBack (I x z : Nat) : Prop :=
  decimalBondPrice (fractionalBondPrice (tickPrice I x z)) = .ok (tickPrice I x z)

/-- Text to number to text gives the text back, up to writing 4 as `+`. -/
def EncodesBack (I x z : Nat) : Prop :=
  ∀ plus, ∃ p, decimalBondPrice (canonicalText I x z plus) = .ok p ∧
    ∃ plus', fractionalBondPrice p = canonicalText I x z plus'

theorem priceText_canonical {I x z : Nat} (hI : I < 2147483648) (hx : x ≤ 31) (hz : z ≤ 7)
    (plus : Bool) : PriceText (canonicalText I x z plus) I x z := by
  have hd : ∀ n, n < 10 → (Nat.digitChar n).isDigit = true := fun n hn => by
    rw [Nat.isDigit_digitChar]; exact decide_eq_true hn
  refine ⟨Nat.toDigits 10 I, Nat.digitChar (x / 10), Nat.digitChar (x % 10),
    if plus && z == 4 then '+' else Nat.digitChar z, ?_, digits_toDigits I,
    Nat.ofDigitChars_ten_toDigits, hI, ⟨List.cons_ne_nil _ _, ?_⟩, ?_, hx, ?_, hz⟩
  · simp [canonicalText, Nat.toList_repr]
  · intro c hc
    simp only [List.mem_cons, List.not_mem_nil, or_false] at hc
    rcases hc with rfl | rfl
    · exact hd _ (by omega)
    · exact hd _ (by omega)
  · rw [Nat.ofDigitChars_cons_digitChar_of_lt_ten (by omega),
      Nat.ofDigitChars_cons_digitChar_of_lt_ten (by omega), Nat.ofDigitChars_nil]
    omega
  · by_cases h4 : (plus && z == 4) = true
    · rw [if_pos h4]
      simp only [Bool.and_eq_true, beq_iff_eq] at h4
      rw [h4.2]
      rfl
    · rw [if_neg h4, lastDigit, if_neg (isDigit_ne (hd z (by omega))).2.2,
        Nat.toNat_digitChar_of_lt_ten (by omega)]
      omega

/-- The text without digits behind the dash makes the reader throw. -/
theorem decimalBondPrice_bare {I : Nat} (hI : I < 2147483648) :
    decimalBondPrice (Nat.repr I ++ "-") = .error .invalidArgument := by
  have hp : (Nat.repr I ++ "-").toList = Nat.toDigits 10 I ++ '-' :: [] := by
    simp [Nat.toList_repr]
  have hfits : Nat.ofDigitChars 10 (Nat.toDigits 10 I) 0 < 2147483648 := by
    rw [Nat.ofDigitChars_ten_toDigits]
    exact hI
  rw [decimalBondPrice_dash hp (digits_toDigits I) hfits]
  rfl

/-- The text with the padding zero alone reads as the whole points. -/
theorem decimalBondPrice_padded {I : Nat} (hI : I < 2147483648) :
    decimalBondPrice (Nat.repr I ++ "-" ++ "0") = .ok I := by
  have hp : (Nat.repr I ++ "-" ++ "0").toList = Nat.toDigits 10 I ++ '-' :: ['0'] := by
    simp [Nat.toList_repr]
  have hlast : (Nat.repr I ++ "-" ++ "0").toList.getLastD '-' = '0' := by rw [hp]; simp
  have h0 : stoi (['0'].take 2) = .ok 0 := rfl
  have hz : lastDigit '0' = 0 := by decide
  have hfits : Nat.ofDigitChars 10 (Nat.toDigits 10 I) 0 < 2147483648 := by
    rw [Nat.ofDigitChars_ten_toDigits]
    exact hI
  rw [decimalBondPrice_dash hp (digits_toDigits I) hfits, hlast, h0, hz,
    Nat.ofDigitChars_ten_toDigits]
  simp [Except.bind]

/-- The written text of a tick price, as characters. -/
theorem toList_fractionalBondPrice_tick {I x z : Nat} (hI : I < 2147483648) (hx : x ≤ 31)
    (hz : z ≤ 7) :
    (fractionalBondPrice (tickPrice I x z)).toList =
      Nat.toDigits 10 I ++ '-' :: (if x < 10 then ['0'] else []) := by
  rw [fractionalBondPrice_tick hI hx hz]
  split_ifs <;> simp [Nat.toList_repr]

theorem decodesBack_iff {I x z : Nat} (hI : I < 2147483648) (hx : x ≤ 31) (hz : z ≤ 7) :
    DecodesBack I x z ↔ x = 0 ∧ z = 0 := by
  unfold DecodesBack
  rw [fractionalBondPrice_tick hI hx hz]
  have hx0 : (0 : ℚ) ≤ x := Nat.cast_nonneg x
  have hz0 : (0 : ℚ) ≤ z := Nat.cast_nonneg z
  split_ifs with h10
  · rw [decimalBondPrice_padded hI, Except.ok.injEq, tickPrice]
    refine ⟨fun h => ?_, fun h => ?_⟩
    · have hxq : (x : ℚ) = 0 := by linarith
      have hzq : (z : ℚ) = 0 := by linarith
      exact ⟨by exact_mod_cast hxq, by exact_mod_cast hzq⟩
    · rw [h.1, h.2]
      simp
  · rw [decimalBondPrice_bare hI]
    constructor
    · intro h; cases h
    · intro h
      omega

/-- The canonical text has three characters behind its dash, the written one at most one. -/
theorem not_encodesBack {I x z : Nat} (hI : I < 2147483648) (hx : x ≤ 31) (hz : z ≤ 7) :
    ¬ EncodesBack I x z := by
  intro h
  obtain ⟨p, hp, plus', he⟩ := h false
  rw [decimalBondPrice_priceText (priceText_canonical hI hx hz false), Except.ok.injEq] at hp
  subst hp
  have hlen := congrArg (fun s => s.toList.length) he
  simp only [toList_fractionalBondPrice_tick hI hx hz, canonicalText, String.toList_append,
    Nat.toList_repr, String.toList_ofList, List.length_append, List.length_cons,
    List.length_nil] at hlen
  have hone : ("-" : String).toList.length = 1 := rfl
  split_ifs at hlen <;> simp only [List.length_cons, List.length_nil] at hlen <;> omega

/-- Two tick prices are written alike exactly when they share the points and the padding. -/
theorem fractionalBondPrice_tick_inj {I x z I' x' z' : Nat} (hI : I < 2147483648) (hx : x ≤ 31)
    (hz : z ≤ 7) (hI' : I' < 2147483648) (hx' : x' ≤ 31) (hz' : z' ≤ 7) :
    fractionalBondPrice (tickPrice I x z) = fractionalBondPrice (tickPrice I' x' z') ↔
      I = I' ∧ (x < 10 ↔ x' < 10) := by
  rw [← String.toList_inj, toList_fractionalBondPrice_tick hI hx hz,
    toList_fractionalBondPrice_tick hI' hx' hz']
  constructor
  · intro h
    have hdash : ∀ t, EndsNumber ('-' :: t) := fun t => endsNumber_cons (by decide)
    have hnum := congrArg strtol h
    rw [strtol_digits (digits_toDigits I) (hdash _), strtol_digits (digits_toDigits I') (hdash _),
      Nat.ofDigitChars_ten_toDigits, Nat.ofDigitChars_ten_toDigits, Option.some.injEq] at hnum
    have hII : I = I' := by exact_mod_cast hnum
    subst hII
    refine ⟨rfl, ?_⟩
    have ht := List.append_cancel_left h
    by_cases h1 : x < 10 <;> by_cases h2 : x' < 10 <;> simp [h1, h2] at ht ⊢
  · rintro ⟨rfl, h⟩
    simp only [h]

/-- Both directions of the round trip, at the price `I + x/32 + z/256`. -/
def RoundTrips (I x z : Nat) : Prop := DecodesBack I x z ∧ EncodesBack I x z

/-- **No tick price makes the round trip**: its text never comes back, the number comes back
    for whole points only, and the written text tells two prices apart exactly when their points
    or their paddings differ. -/
theorem fractional_roundTrip (I x z : Nat) (hI : I < 2147483648) (hx : x ≤ 31) (hz : z ≤ 7) :
    ¬ RoundTrips I x z ∧ (DecodesBack I x z ↔ x = 0 ∧ z = 0) ∧
    ∀ I' x' z', I' < 2147483648 → x' ≤ 31 → z' ≤ 7 →
      (fractionalBondPrice (tickPrice I x z) = fractionalBondPrice (tickPrice I' x' z') ↔
        I = I' ∧ (x < 10 ↔ x' < 10)) :=
  ⟨fun h => not_encodesBack hI hx hz h.2, decodesBack_iff hI hx hz,
    fun _ _ _ hI' hx' hz' => fractionalBondPrice_tick_inj hI hx hz hI' hx' hz'⟩

/-- The theorem at 99-001. -/
theorem fractional_roundTrip_99_001 :
    ¬ RoundTrips 99 0 1 ∧ (DecodesBack 99 0 1 ↔ (0 : Nat) = 0 ∧ (1 : Nat) = 0) ∧
    ∀ I' x' z', I' < 2147483648 → x' ≤ 31 → z' ≤ 7 →
      (fractionalBondPrice (tickPrice 99 0 1) = fractionalBondPrice (tickPrice I' x' z') ↔
        99 = I' ∧ (0 < 10 ↔ x' < 10)) :=
  fractional_roundTrip 99 0 1 (by decide) (by decide) (by decide)

/-- 99-001 and 99-002 are both written `99-0`, which reads as 99. -/
theorem fractional_collision_99 :
    ¬ RoundTrips 99 0 1 ∧
    fractionalBondPrice (tickPrice 99 0 1) = "99-0" ∧
    fractionalBondPrice (tickPrice 99 0 2) = "99-0" ∧
    decimalBondPrice "99-0" = .ok 99 ∧ tickPrice 99 0 1 ≠ tickPrice 99 0 2 :=
  ⟨fun h => absurd h.1 (by unfold DecodesBack; decide +kernel), by decide +kernel,
    by decide +kernel, by decide +kernel, by decide +kernel⟩

end BondTrading
