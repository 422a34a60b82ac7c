
set_option autoImplicit false

namespace GotoLang

/-- Whether a character has the Unicode property White_Space. -/
def isBlank (c : Char) : Bool :=
  (9 ≤ c.toNat && c.toNat ≤ 13) || (0x2000 ≤ c.toNat && c.toNat ≤ 0x200A) ||
    [0x20, 0x85, 0xA0, 0x1680, 0x2028, 0x2029, 0x202F, 0x205F, 0x3000].contains c.toNat

def trimStart (text : List Char) : List Char :=
  text.dropWhile isBlank

def dropEndWhile (inClass : Char → Bool) (text : List Char) : List Char :=
  (text.reverse.dropWhile inClass).reverse

def trim (text : List Char) : List Char :=
  dropEndWhile isBlank (trimStart text)

/-- The value of a digit or of a letter used as a digit: `a` and `A` are ten. -/
def digitValue (c : Char) : Nat :=
  if c.isDigit then c.toNat - '0'.toNat else c.toLower.toNat - 'a'.toNat + 10

/-- The number that a run of digits denotes in a base, most significant digit first. -/
def ofDigits (base : Nat) (digits : List Char) : Nat :=
  digits.foldl (fun n c => n * base + digitValue c) 0

/-- The longest run of characters of a class at the front of a text, and what follows it. -/
def splitRun (inClass : Char → Bool) (text : List Char) : List Char × List Char :=
  (text.takeWhile inClass, text.dropWhile inClass)

@[simp] theorem splitRun_append (inClass : Char → Bool) (text : List Char) :
    (splitRun inClass text).1 ++ (splitRun inClass text).2 = text :=
  List.takeWhile_append_dropWhile

theorem splitRun_rest_length_le (inClass : Char → Bool) (text : List Char) :
    (splitRun inClass text).2.length ≤ text.length :=
  (List.dropWhile_suffix inClass).length_le

/-- An optional sign at the front of a text: whether it is a minus, and what follows. -/
def splitSign : List Char → Bool × List Char
  | '-' :: rest => (true, rest)
  | '+' :: rest => (false, rest)
  | rest => (false, rest)

theorem splitSign_rest_length_le (text : List Char) :
    (splitSign text).2.length ≤ text.length := by
  unfold splitSign
  split <;> simp

/-- An integer with an optional sign, which must take up the whole text. -/
def integer? (text : List Char) : Option Int :=
  let (negative, digits) := splitSign text
  if digits ≠ [] ∧ digits.all Char.isDigit then
    let magnitude : Int := ofDigits 10 digits
    some (if negative then -magnitude else magnitude)
  else none

def int64? (n : Int) : Option Int64 :=
  if Int64.minValue.toInt ≤ n ∧ n ≤ Int64.maxValue.toInt then some (.ofInt n) else none

theorem int64?_eq_some_iff {n : Int} {v : Int64} : int64? n = some v ↔ v.toInt = n := by
  unfold int64?
  constructor
  · intro h
    split at h
    · next bounds =>
      rw [← Option.some.inj h]
      rw [Int64.toInt_minValue, Int64.toInt_maxValue] at bounds
      exact Int64.toInt_ofInt_of_le bounds.1 (by omega)
    · simp at h
  · rintro rfl
    rw [if_pos ⟨v.minValue_le_toInt, v.toInt_le⟩, Int64.ofInt_toInt]

theorem int64?_eq_none_iff {n : Int} : int64? n = none ↔
    n < Int64.minValue.toInt ∨ Int64.maxValue.toInt < n := by
  unfold int64?
  split
  · simp only [reduceCtorEq, false_iff]
    omega
  · simp only [true_iff]
    omega

@[simp] theorem int64?_toInt (v : Int64) : int64? v.toInt = some v :=
  int64?_eq_some_iff.2 rfl

/-- An exponent at the front of a text: `e` or `E`, an optional sign and digits. -/
def exponent? : List Char → Option (Int × List Char)
  | [] => none
  | mark :: text =>
    if mark = 'e' ∨ mark = 'E' then
      let (negative, text) := splitSign text
      let (digits, rest) := splitRun Char.isDigit text
      if digits = [] then none
      else
        let magnitude : Int := ofDigits 10 digits
        some (if negative then -magnitude else magnitude, rest)
    else none

theorem exponent?_rest_length_lt {text rest : List Char} {e : Int}
    (h : exponent? text = some (e, rest)) : rest.length < text.length := by
  cases text with
  | nil => simp [exponent?] at h
  | cons mark text =>
    have sign := splitSign_rest_length_le text
    have run := splitRun_rest_length_le Char.isDigit (splitSign text).2
    simp only [exponent?] at h
    split at h
    · split at h
      · simp at h
      · simp only [Option.some.injEq, Prod.mk.injEq] at h
        rw [← h.2, List.length_cons]
        omega
    · simp at h

/-- The decimal number `digits * 10 ^ exponent`. -/
structure Decimal where
  digits : Nat
  exponent : Int
  deriving DecidableEq

namespace Decimal

/-- The number written as digits, a point, more digits and an exponent. -/
def ofParts (whole fraction : List Char) (exponent : Int) : Decimal where
  digits := ofDigits 10 (whole ++ fraction)
  exponent := exponent - fraction.length

/-- The digits on both sides of an optional point at the front of a text, and what follows. -/
def splitPoint (text : List Char) : List Char × List Char × List Char :=
  let (whole, rest) := splitRun Char.isDigit text
  match rest with
  | '.' :: rest =>
    let (fraction, rest) := splitRun Char.isDigit rest
    (whole, fraction, rest)
  | rest => (whole, [], rest)

/-- An unsigned decimal number, which must take up the whole text: digits with an optional point
among, before or after them, and an optional exponent. -/
def ofText? (text : List Char) : Option Decimal :=
  let (whole, fraction, rest) := splitPoint text
  if whole = [] ∧ fraction = [] then none
  else if rest = [] then some (ofParts whole fraction 0)
  else
    match exponent? rest with
    | some (exponent, []) => some (ofParts whole fraction exponent)
    | _ => none

/-- The decimal text of a number without exponent: the point is always there, with a digit on
either side of it. -/
def positional (digits : List Char) (exponent : Int) : List Char :=
  if 0 ≤ exponent then digits ++ List.replicate exponent.toNat '0' ++ ['.', '0']
  else
    let places := (-exponent).toNat
    if places < digits.length then
      digits.take (digits.length - places) ++ '.' :: digits.drop (digits.length - places)
    else '0' :: '.' :: List.replicate (places - digits.length) '0' ++ digits

/-- The text of a number with one digit before the point and an exponent. A single digit has no
point. -/
def scientific (digits : List Char) (exponent : Int) : List Char :=
  let place := exponent + digits.length - 1
  let mantissa :=
    match digits with
    | first :: second :: more => first :: '.' :: second :: more
    | short => short
  mantissa ++ 'e' :: (toString place).toList

/-- The text of a number that is not zero: without exponent from `10 ^ -4` up to `10 ^ 16`, with
an exponent outside. -/
def toText (d : Decimal) : List Char :=
  let digits := Nat.toDigits 10 d.digits
  let place := d.exponent + digits.length - 1
  if -4 ≤ place ∧ place < 16 then positional digits d.exponent
  else scientific digits d.exponent

end Decimal

end GotoLang
