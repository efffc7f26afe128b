/-
  File:      BondTrading/PriceGrammar.lean
  Subject:   THE PRICE NOTATION AS A GRAMMAR: what `DecimalBondPrice` makes of its texts, and what of
             all others.

  * `tickPrice_lt_iff`, `tickPrice_inj` -- tick prices are ordered digit by digit, and no two of them
    are equal;
  * `decimalBondPrice_exact` -- so are the prices that are read;
  * `Refused` -- the texts that are answered 0, in terms of their characters
    (`decimalBondPrice_eq_zero_iff`);
  * `rejects_iff` -- which of the texts outside the grammar are among them.
-/
import BondTrading.PriceText
import Mathlib.Data.Prod.Lex

namespace BondTrading

open Cxx

/-! ## 1. The order of tick prices -/

/-- The points, the 32nds and the 256ths of a price, compared in this order. -/
def ticks (I x z : Nat) : ℕ ×ₗ ℕ ×ₗ ℕ := toLex (I, toLex (x, z))

theorem ticks_lt_iff {I x z I' x' z' : Nat} :
    ticks I x z < ticks I' x' z' ↔ I < I' ∨ I = I' ∧ (x < x' ∨ x = x' ∧ z < z') := by
  unfold ticks
  rw [Prod.Lex.toLex_lt_toLex, Prod.Lex.toLex_lt_toLex]

/-- A tick price is a whole number of 256ths. -/
theorem tickPrice_eq_div (I x z : Nat) :
    tickPrice I x z = ((256 * I + 8 * x + z : Nat) : ℚ) / 256 := by
  unfold tickPrice
  push_cast
  ring

section Order

variable {I x z I' x' z' : Nat}

/-- **Tick prices are ordered as their digits are.** -/
theorem tickPrice_lt_iff (hx : x ≤ 31) (hz : z ≤ 7) (hx' : x' ≤ 31) (hz' : z' ≤ 7) :
    tickPrice I x z < tickPrice I' x' z' ↔ ticks I x z < ticks I' x' z' := by
  have h256 : (0 : ℚ) < 256 := by norm_num
  rw [ticks_lt_iff, tickPrice_eq_div, tickPrice_eq_div, div_lt_div_iff_of_pos_right h256,
    Nat.cast_lt]
  -- `8 x + z` stays below 256, and `z` below 8
  omega

theorem tickPrice_inj (hx : x ≤ 31) (hz : z ≤ 7) (hx' : x' ≤ 31) (hz' : z' ≤ 7) :
    tickPrice I x z = tickPrice I' x' z' ↔ I = I' ∧ x = x' ∧ z = z' := by
  have h256 : (256 : ℚ) ≠ 0 := by norm_num
  rw [tickPrice_eq_div, tickPrice_eq_div, div_left_inj' h256, Nat.cast_inj]
  omega

/-- **The reader is exact on its grammar, in order and without collisions.** -/
theorem decimalBondPrice_exact {s s' : String} (h : PriceText s I x z)
    (h' : PriceText s' I' x' z') :
    ∃ p p', decimalBondPrice s = .ok p ∧ decimalBondPrice s' = .ok p' ∧
      p = I + x / 32 + z / 256 ∧ p' = I' + x' / 32 + z' / 256 ∧
      (p < p' ↔ ticks I x z < ticks I' x' z') ∧ (p = p' ↔ I = I' ∧ x = x' ∧ z = z') := by
  obtain ⟨hx, hz⟩ := h.bounds
  obtain ⟨hx', hz'⟩ := h'.bounds
  exact ⟨tickPrice I x z, tickPrice I' x' z', decimalBondPrice_priceText h,
    decimalBondPrice_priceText h', rfl, rfl, tickPrice_lt_iff hx hz hx' hz',
    tickPrice_inj hx hz hx' hz'⟩

end Order

/-- The theorem at 99-16+ and 0100-000. -/
theorem decimalBondPrice_exact_99_100 :
    ∃ p p', decimalBondPrice "99-16+" = .ok p ∧ decimalBondPrice "0100-000" = .ok p' ∧
      p = (99 : Nat) + (16 : Nat) / 32 + (4 : Nat) / 256 ∧
      p' = (100 : Nat) + (0 : Nat) / 32 + (0 : Nat) / 256 ∧
      (p < p' ↔ ticks 99 16 4 < ticks 100 0 0) ∧
      (p = p' ↔ 99 = 100 ∧ 16 = 0 ∧ 4 = 0) :=
  decimalBondPrice_exact
    ⟨['9', '9'], '1', '6', '+', by decide, by decide, by decide, by decide, by decide, by decide,
      by decide, by decide, by decide⟩
    ⟨['0', '1', '0', '0'], '0', '0', '0', by decide, by decide, by decide, by decide, by decide,
      by decide, by decide, by decide, by decide⟩

/-! ## 2. What is answered 0 -/

/-- The texts of the grammar. -/
def InGrammar (s : String) : Prop := ∃ I x z, PriceText s I x z

/-- The 32nds or the last digit out of range, or nothing but zeros. -/
def OutOrZero (I xy last : ℤ) : Prop :=
  xy < 0 ∨ 31 < xy ∨ last < 0 ∨ 7 < last ∨ I = 0 ∧ xy = 0 ∧ last = 0

/-- **What the reader answers 0**: texts without a dash; and texts with a number in front of the first
    dash and a number at the beginning of the two characters behind it, if these and the last
    character are out of range or zero. -/
def Refused (s : String) : Prop :=
  '-' ∉ s.toList ∨
    ∃ front back I xy last, s.toList = front ++ '-' :: back ∧ '-' ∉ front ∧
      s.toList.getLast? = some last ∧ LeadsWithInt front I ∧ LeadsWithInt (back.take 2) xy ∧
      OutOrZero I xy (lastDigit last)

/-- A sum of parts none of which is negative is zero when they are. -/
theorem parts_eq_zero_iff {I xy last : ℤ} (hI : 0 ≤ I) (hxy : 0 ≤ xy) (hlast : 0 ≤ last) :
    (xy : ℚ) / 32 + (last : ℚ) / 256 + I = 0 ↔ I = 0 ∧ xy = 0 ∧ last = 0 := by
  have h : (xy : ℚ) / 32 + (last : ℚ) / 256 + I = ((256 * I + 8 * xy + last : ℤ) : ℚ) / 256 := by
    push_cast
    ring
  have h256 : (256 : ℚ) ≠ 0 := by norm_num
  rw [h, div_eq_zero_iff, or_iff_left h256, Int.cast_eq_zero]
  omega

/-- A text with a dash is answered 0 if both conversions succeed and give `OutOrZero`. -/
theorem decimalBondPrice_split_eq_zero_iff {s : String} {front back : List Char} {last : Char}
    (hs : s.toList = front ++ '-' :: back) (hfront : '-' ∉ front)
    (hlast : s.toList.getLast? = some last) :
    decimalBondPrice s = .ok 0 ↔
      ∃ I xy, LeadsWithInt front I ∧ LeadsWithInt (back.take 2) xy ∧
        OutOrZero I xy (lastDigit last) := by
  have hlast' : s.toList.getLastD '-' = last := by
    rw [List.getLastD_eq_getLast?, hlast]
    rfl
  rw [decimalBondPrice_split hs hfront, hlast']
  simp only [← stoi_eq_ok_iff]
  cases hI : stoi front with
  | error why => simp [Except.bind]
  | ok I =>
      have hpos : 0 ≤ I := (stoi_eq_ok_iff.mp hI).1.nonneg hfront
      cases hxy : stoi (back.take 2) with
      | error why => simp [Except.bind]
      | ok xy =>
          have hread : (∃ I' xy', (Except.ok I : Except Stop ℤ) = .ok I' ∧
              (Except.ok xy : Except Stop ℤ) = .ok xy' ∧ OutOrZero I' xy' (lastDigit last)) ↔
              OutOrZero I xy (lastDigit last) := by
            constructor
            · rintro ⟨I', xy', h, h', hout⟩
              cases h
              cases h'
              exact hout
            · exact fun hout => ⟨I, xy, rfl, rfl, hout⟩
          rw [hread, OutOrZero]
          simp only [Except.bind]
          split_ifs with hout
          · refine iff_of_true rfl ?_
            omega
          · rw [Except.ok.injEq, parts_eq_zero_iff hpos (by omega) (by omega)]
            omega

/-- **The texts that are answered 0.** -/
theorem decimalBondPrice_eq_zero_iff (s : String) : decimalBondPrice s = .ok 0 ↔ Refused s := by
  by_cases hdash : '-' ∈ s.toList
  · rw [Refused, or_iff_right (not_not_intro hdash)]
    constructor
    · intro h
      obtain ⟨front, back, hs, hfront⟩ := List.eq_append_cons_of_mem hdash
      have hlast : s.toList.getLast? = some (s.toList.getLast (List.ne_nil_of_mem hdash)) :=
        List.getLast?_eq_getLast_of_ne_nil _
      obtain ⟨I, xy, h⟩ := (decimalBondPrice_split_eq_zero_iff hs hfront hlast).mp h
      exact ⟨front, back, I, xy, _, hs, hfront, hlast, h⟩
    · rintro ⟨front, back, I, xy, last, hs, hfront, hlast, h⟩
      exact (decimalBondPrice_split_eq_zero_iff hs hfront hlast).mpr ⟨I, xy, h⟩
  · have hnone : find '-' s.toList = none := by
      refine List.findIdx?_eq_none_iff.mpr fun c hc => ?_
      rw [beq_eq_false_iff_ne]
      exact fun e => hdash (e ▸ hc)
    refine iff_of_true ?_ (Or.inl hdash)
    unfold decimalBondPrice
    rw [hnone]

/-- The reader rejects the text if it is none of the grammar: it answers 0 and throws nothing. -/
def Rejects (s : String) : Prop := ¬ InGrammar s → decimalBondPrice s = .ok 0

/-- **When the reader rejects what is outside its grammar**: when the text is inside, or one of those
    that are answered 0. -/
theorem rejects_iff (s : String) : Rejects s ↔ InGrammar s ∨ Refused s := by
  rw [Rejects, decimalBondPrice_eq_zero_iff, or_iff_not_imp_left]

/-- Any other answer is no rejection. -/
theorem not_rejects {s : String} {answer : Except Stop ℚ} (hout : ¬ InGrammar s)
    (h : decimalBondPrice s = answer) (hne : answer ≠ .ok 0) : ¬ Rejects s :=
  fun hrejects => hne (h.symm.trans (hrejects hout))

/-- A text of the grammar ends with a dash and three characters. -/
theorem not_inGrammar {s : String} (front back : List Char) (hs : s.toList = front ++ back)
    (hlength : back.length = 4) (hfront : ¬ Digits front) : ¬ InGrammar s := by
  rintro ⟨I, x, z, ds, a, b, c, hds, hd, -⟩
  refine hfront ?_
  have hsplit : ds = front := List.append_inj_left' (hds.symm.trans hs) hlength.symm
  rwa [hsplit] at hd

/-- What follows the first number is not looked at, nor what stands between the 32nds and the last
    character; and without digits behind the dash the reader throws. -/
theorem rejects_fails : ¬ Rejects "99x-001" ∧ ¬ Rejects " 99-001" ∧ ¬ Rejects "99-" ∧
    decimalBondPrice "99x-001" = .ok (99 + 1 / 256) ∧
    decimalBondPrice " 99-001" = .ok (99 + 1 / 256) ∧
    decimalBondPrice "99-" = .error .invalidArgument := by
  have htrailing : decimalBondPrice "99x-001" = .ok (99 + 1 / 256) := by decide +kernel
  have hblank : decimalBondPrice " 99-001" = .ok (99 + 1 / 256) := by decide +kernel
  have hbare : decimalBondPrice "99-" = .error .invalidArgument := by decide +kernel
  have hout₁ : ¬ InGrammar "99x-001" :=
    not_inGrammar ['9', '9', 'x'] ['-', '0', '0', '1'] rfl rfl (by decide)
  have hout₂ : ¬ InGrammar " 99-001" :=
    not_inGrammar [' ', '9', '9'] ['-', '0', '0', '1'] rfl rfl (by decide)
  have hout₃ : ¬ InGrammar "99-" := by
    rintro ⟨I, x, z, ds, a, b, c, hds, hd, -⟩
    have hlen := congrArg List.length hds
    have hne := List.length_pos_iff.mpr hd.1
    have h3 : ("99-" : String).toList.length = 3 := rfl
    rw [List.length_append, h3] at hlen
    simp only [List.length_cons, List.length_nil] at hlen
    omega
  exact ⟨not_rejects hout₁ htrailing (by decide +kernel),
    not_rejects hout₂ hblank (by decide +kernel), not_rejects hout₃ hbare nofun,
    htrailing, hblank, hbare⟩

end BondTrading
