/-
  File:      BondTrading/Products.lean
  Subject:   THE BOND AND THE TWO NOTATIONS OF ITS PRICE (products.hpp).

  A `double` price is a rational number: every price the program forms from its files is a
  multiple of 1/512 below 2^33 and exactly representable. The ticker, the id type and the swap
  products are read by no modelled function and are left out.

  * `Bond`, `Bond.ofCusip` -- the constructor from a CUSIP, with its six known bonds;
  * `decimalBondPrice` -- `I-xyz` to a number, with the exceptions of the two `stoi` calls;
  * `fractionalBondPrice` -- a number to text.
-/
import BondTrading.Library.Text
import Mathlib.Data.Rat.Floor

namespace BondTrading

open Cxx

/-! ## 1. The bond -/

inductive Month where
  | jan | feb | mar | apr | may | jun | jul | aug | sep | oct | nov | dec
  deriving DecidableEq, Repr

/-- A calendar date. -/
structure Date where
  year : Nat
  month : Month
  day : Nat
  deriving DecidableEq, Repr

/-- A bond. `coupon = none`: the constructor left the member uninitialised; `maturityDate = none`:
    a default-constructed date (`not_a_date_time`). -/
structure Bond where
  productId : String
  coupon : Option ℚ
  maturityDate : Option Date
  deriving DecidableEq, Repr

/-- `Bond(string _productId)`. -/
def Bond.ofCusip (productId : String) : Bond :=
  if productId = "912828M72" then ⟨productId, some (7 / 8), some ⟨2017, .nov, 30⟩⟩
  else if productId = "912828N22" then ⟨productId, some (5 / 4), some ⟨2018, .dec, 15⟩⟩
  else if productId = "912828M98" then ⟨productId, some (13 / 8), some ⟨2020, .nov, 30⟩⟩
  else if productId = "912828M80" then ⟨productId, some 2, some ⟨2022, .nov, 30⟩⟩
  else if productId = "912828M56" then ⟨productId, some (9 / 4), some ⟨2025, .dec, 15⟩⟩
  else if productId = "912810RP5" then ⟨productId, some 3, some ⟨2045, .dec, 15⟩⟩
  else ⟨productId, none, none⟩

@[simp] theorem Bond.productId_ofCusip (productId : String) :
    (Bond.ofCusip productId).productId = productId := by
  unfold Bond.ofCusip
  split_ifs <;> rfl

/-- `Bond()`. -/
def Bond.default : Bond := ⟨"0", none, none⟩

/-! ## 2. Text to number -/

/-- `decimal2`: the value of the last character, `+` standing for 4. (A byte above 127 counts
    negative in C++ and large here: the range check refuses it both ways.) -/
def lastDigit (c : Char) : ℤ := if c = '+' then 4 else (c.toNat : ℤ) - 48

/-- `DecimalBondPrice`. An error is the exception of one of the `stoi` calls; the checked errors
    are the value 0. -/
def decimalBondPrice (price : String) : Except Stop ℚ :=
  match find '-' price.toList with
  | none => .ok 0
  | some dash => do
      let intPart ← stoi (substr price.toList 0 dash)
      let decimal1 ← stoi (substr price.toList (dash + 1) 2)
      let decimal2 := lastDigit (price.toList.getLastD '-')
      if intPart < 0 ∨ decimal1 > 31 ∨ decimal1 < 0 ∨ decimal2 > 7 ∨ decimal2 < 0 then
        .ok 0
      else
        .ok ((decimal1 : ℚ) / 32 + (decimal2 : ℚ) / 256 + intPart)

/-! ## 3. Number to text -/

/-- Rounding toward zero, as `modf` and the conversion to an integer type do. -/
def truncate (q : ℚ) : ℤ := if 0 ≤ q then ⌊q⌋ else ⌈q⌉

/-- `(int)` of a `double`; a value outside the range of `int` (undefined in C++) gives the
    indefinite integer of the conversion instruction. -/
def castInt (q : ℚ) : ℤ :=
  if -2147483648 ≤ truncate q ∧ truncate q ≤ 2147483647 then truncate q else -2147483648

/-- `FractionalBondPrice`. The 256ths digit is computed and never appended, of the 32nds only
    the padding is. -/
def fractionalBondPrice (price : ℚ) : String :=
  let decimalIntPart : ℚ := truncate price
  let decimalPart := price - decimalIntPart
  let intPart := toString (castInt decimalIntPart)
  let decimalPart := decimalPart * 32
  let fractPart1 := castInt ⌊decimalPart⌋
  let _fractPart2 := castInt ((decimalPart - fractPart1) * 8)
  let result := intPart ++ "-"
  if fractPart1 < 10 then result ++ "0" else result

end BondTrading
