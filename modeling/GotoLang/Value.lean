import GotoLang.Binary64.Decimal

set_option autoImplicit false

namespace GotoLang

inductive Kind where
  | integer | real | text | boolean | vector
  deriving DecidableEq

namespace Kind

def name : Kind → String
  | integer => "integer"
  | real => "real"
  | text => "text"
  | boolean => "boolean"
  | vector => "vector"

def article : Kind → String
  | integer => "an"
  | _ => "a"

end Kind

/-- A value. Text comes from input, and truth values from comparisons. -/
inductive Value where
  | integer (n : Int64)
  | real (r : Binary64)
  | text (s : String)
  | boolean (b : Bool)
  | vector (elements : List Value)

namespace Value

def kind : Value → Kind
  | integer _ => .integer
  | real _ => .real
  | text _ => .text
  | boolean _ => .boolean
  | vector _ => .vector

/-- The value as a real number; integers are rounded to the nearest one. -/
def number? : Value → Option Binary64
  | integer n => some (.ofInt n.toInt)
  | real r => some r
  | _ => none

def isNumber : Value → Bool
  | integer _ | real _ => true
  | _ => false

theorem isSome_number? (v : Value) : v.number?.isSome = v.isNumber := by
  cases v <;> rfl

def isZero : Value → Bool
  | integer n => n == 0
  | real r => r.isZero
  | _ => false

/-- Whether a condition with this value holds: a truth value stands for itself, a number holds
unless it is zero, and anything else holds. -/
def holds : Value → Bool
  | boolean b => b
  | v => !v.isZero

mutual

/-- Equality in the language. Numbers of different kinds are compared as reals, vectors element by
element, and other values of different kinds differ. -/
def same : Value → Value → Bool
  | integer a, integer b => a == b
  | integer a, real b => (Binary64.ofInt a.toInt).same b
  | real a, integer b => a.same (.ofInt b.toInt)
  | real a, real b => a.same b
  | text a, text b => a == b
  | boolean a, boolean b => a == b
  | vector a, vector b => sameAll a b
  | _, _ => false

def sameAll : List Value → List Value → Bool
  | [], [] => true
  | a :: as, b :: bs => same a b && sameAll as bs
  | _, _ => false

end

mutual

def toText : Value → String
  | integer n => toString n.toInt
  | real r => r.toText
  | text s => s
  | boolean b => if b then "true" else "false"
  | vector elements => "[" ++ elementsText elements ++ "]"

def elementsText : List Value → String
  | [] => ""
  | [v] => toText v
  | v :: rest => toText v ++ ", " ++ elementsText rest

end

end Value

def isLineEnd (c : Char) : Bool := c == '\n' || c == '\r'

/-- The value of an input line without the line ends behind it: a real if it is a decimal number
with a point, an integer if it is one of 64 bits, and else the text as it is. Blanks around a
number do not count. -/
def Value.ofLine (line : String) : Value :=
  let content := dropEndWhile isLineEnd line.toList
  let trimmed := trim content
  let number? : Option Value :=
    if '.' ∈ trimmed then (Binary64.ofNumeral? trimmed).map .real
    else ((integer? trimmed).bind int64?).map .integer
  number?.getD (.text (String.ofList content))

end GotoLang
