import GotoLang.RuntimeError

set_option autoImplicit false

namespace GotoLang

namespace Value

def toReal (v : Value) : Except RuntimeFault Binary64 :=
  match v.number? with
  | some r => .ok r
  | none => .error (.type (.notNumber v.kind))

theorem toReal_of_number? {v : Value} {r : Binary64} (found : v.number? = some r) :
    v.toReal = .ok r := by
  rw [toReal, found]

def toInteger : Value → Except RuntimeFault Int64
  | integer n => .ok n
  | v => .error (.type (.notInteger v.kind))

def exactly (n : Int) : Except RuntimeFault Value :=
  match int64? n with
  | some v => .ok (.integer v)
  | none => .error .overflow

def negate : Value → Except RuntimeFault Value
  | integer n => exactly (-n.toInt)
  | real r => .ok (.real (-r))
  | v => .error (.type (.operand v.kind))

end Value

namespace BinaryOperator

/-- The operands as reals. Operands that are not both numbers are a fault of the operator. -/
def reals (op : BinaryOperator) (left right : Value) :
    Except RuntimeFault (Binary64 × Binary64) :=
  if left.isNumber && right.isNumber then do return (← left.toReal, ← right.toReal)
  else .error (.type (.operands op left.kind right.kind))

theorem reals_of_numbers (op : BinaryOperator) {left right : Value} {a b : Binary64}
    (foundLeft : left.number? = some a) (foundRight : right.number? = some b) :
    reals op left right = .ok (a, b) := by
  have numbers : (left.isNumber && right.isNumber) = true := by
    simp only [← Value.isSome_number?, foundLeft, foundRight, Option.isSome_some, Bool.and_self]
  rw [reals, if_pos numbers, Value.toReal_of_number? foundLeft, Value.toReal_of_number? foundRight]
  rfl

/-- Arithmetic that is exact on two integers and rounded on other numbers. -/
def arithmetic (op : BinaryOperator) (exact : Int → Int → Int)
    (rounded : Binary64 → Binary64 → Binary64) (left right : Value) :
    Except RuntimeFault Value :=
  match left, right with
  | .integer a, .integer b => Value.exactly (exact a.toInt b.toInt)
  | _, _ => do
    let (a, b) ← reals op left right
    return .real (rounded a b)

/-- Division, toward zero on integers. No number is divided by a zero of either kind. -/
def divide (left right : Value) : Except RuntimeFault Value := do
  let (_, divisor) ← reals .div left right
  if divisor.isZero then .error .divisionByZero
  else arithmetic .div Int.tdiv (· / ·) left right

theorem divide_of_numbers {left right : Value} {a b : Binary64}
    (foundLeft : left.number? = some a) (foundRight : right.number? = some b) :
    divide left right =
      if b.isZero then .error .divisionByZero
      else arithmetic .div Int.tdiv (· / ·) left right := by
  rw [divide, reals_of_numbers .div foundLeft foundRight]
  rfl

/-- The remainder of the division toward zero, which has the sign of the dividend. It is defined
on integers only, and where their quotient fits. -/
def modulo (left right : Value) : Except RuntimeFault Value :=
  match left, right with
  | .integer a, .integer b =>
    if b = 0 then .error .divisionByZero
    else
      match int64? (a.toInt.tdiv b.toInt) with
      | some _ => Value.exactly (a.toInt.tmod b.toInt)
      | none => .error .overflow
  | _, _ =>
    if left.isNumber && right.isNumber then .error .moduloType
    else .error (.type (.operands .mod left.kind right.kind))

/-- How two numbers compare; `none` if one of them is `nan`. -/
def order (op : BinaryOperator) (left right : Value) : Except RuntimeFault (Option Ordering) :=
  match left, right with
  | .integer a, .integer b => .ok (some (compare a.toInt b.toInt))
  | _, _ => do
    let (a, b) ← reals op left right
    return a.compare? b

/-- The truth value of a comparison of numbers. It is false where they do not compare. -/
def comparison (op : BinaryOperator) (holds : Ordering → Bool) (left right : Value) :
    Except RuntimeFault Value := do
  let ordering ← order op left right
  return .boolean (ordering.any holds)

def apply (op : BinaryOperator) (left right : Value) : Except RuntimeFault Value :=
  match op with
  | add => arithmetic add (· + ·) (· + ·) left right
  | sub => arithmetic sub (· - ·) (· - ·) left right
  | mul => arithmetic mul (· * ·) (· * ·) left right
  | div => divide left right
  | mod => modulo left right
  | equal => .ok (.boolean (left.same right))
  | notEqual => .ok (.boolean (!left.same right))
  | less => comparison less Ordering.isLT left right
  | lessEqual => comparison lessEqual Ordering.isLE left right
  | greater => comparison greater Ordering.isGT left right
  | greaterEqual => comparison greaterEqual Ordering.isGE left right

end BinaryOperator

end GotoLang
