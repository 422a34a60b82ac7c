import GotoLang.Binary64.Basic
import GotoLang.Numeral

set_option autoImplicit false

namespace GotoLang

namespace Binary64

/-- The number nearest to a decimal number. Magnitudes that are certainly too large or too small
are settled first, so that no power of ten larger than the digits call for is formed. -/
def ofDecimal (negative : Bool) (d : Decimal) : Binary64 :=
  if d.digits = 0 then zero negative
  else if 310 ≤ d.exponent then .infinite negative
  else if d.exponent + (d.digits.log2 / 3 + 1 : Nat) < -330 then zero negative
  else if 0 ≤ d.exponent then nearest negative (d.digits * Nat.pow 10 d.exponent.toNat * one) 1
  else nearest negative (d.digits * one) (Nat.pow 10 (-d.exponent).toNat)

def readsAs (d : Decimal) (units : Nat) : Bool :=
  match ofDecimal false d with
  | .finite _ magnitude _ _ => magnitude == units
  | _ => false

/-- The exponent of the leading decimal digit of a positive number of units. -/
def leadingPlace (units : Nat) : Int :=
  if one ≤ units then (Nat.toDigits 10 (units / one)).length - 1
  else -(Nat.toDigits 10 ((one - 1) / units)).length

/-- The nearer of the two multiples of `10 ^ exponent` around a number that read as it, if one
does; the upper one if they are equally near. -/
def neighbour? (units : Nat) (exponent : Int) : Option Decimal :=
  let num := units * Nat.pow 10 (-exponent).toNat
  let den := one * Nat.pow 10 exponent.toNat
  let lower : Decimal := ⟨num / den, exponent⟩
  let upper : Decimal := ⟨num / den + 1, exponent⟩
  match readsAs lower units, readsAs upper units with
  | true, true => some (if 2 * (num % den) < den then lower else upper)
  | true, false => some lower
  | false, true => some upper
  | false, false => none

/-- The first neighbour that reads back on grids of falling exponent, and the exact decimal value
once the grids are used up. -/
def firstNeighbour (units : Nat) : Nat → Int → Decimal
  | 0, _ => ⟨units * Nat.pow 5 1074, -1074⟩
  | grids + 1, exponent =>
    match neighbour? units exponent with
    | some d => d
    | none => firstNeighbour units grids (exponent - 1)

/-- The decimal number of fewest digits that reads as a positive number of units. Seventeen
digits are always enough; the grid above the leading digit is tried first. -/
def shortest (units : Nat) : Decimal :=
  firstNeighbour units 18 (leadingPlace units + 1)

/-- The text of a number. Zero keeps its sign and `nan` has none. -/
def toText : Binary64 → String
  | .nan => "NaN"
  | .infinite negative => if negative then "-inf" else "inf"
  | .finite negative units _ _ =>
    let magnitude := if units = 0 then ['0', '.', '0'] else (shortest units).toText
    String.ofList (if negative then '-' :: magnitude else magnitude)

/-- The number that a decimal text with an optional sign denotes. -/
def ofNumeral? (text : List Char) : Option Binary64 :=
  let (negative, digits) := splitSign text
  (Decimal.ofText? digits).map (ofDecimal negative)

/-- The number that a text denotes: a decimal number, an infinity or `NaN`. -/
def ofText? (text : String) : Option Binary64 :=
  match text with
  | "NaN" => some .nan
  | "inf" => some (.infinite false)
  | "-inf" => some (.infinite true)
  | _ => ofNumeral? text.toList

end Binary64

end GotoLang
