import GotoLang.Program
import GotoLang.Value

set_option autoImplicit false

namespace GotoLang

/-- A value of a kind that does not belong where it stands. -/
inductive TypeFault where
  | notNumber (found : Kind)
  | notInteger (found : Kind)
  | operand (found : Kind)
  | operands (op : BinaryOperator) (left right : Kind)
  | notVector (name : String) (found : Kind)
  deriving DecidableEq

def TypeFault.text : TypeFault → String
  | notNumber found => s!"expected a number, found {found.name}"
  | notInteger found => s!"expected an integer, found {found.name}"
  | operand found => s!"operand of '-' must be a number, found {found.name}"
  | operands op left right =>
    s!"operands of '{op.spelling}' must be numbers, found {left.name} and {right.name}"
  | notVector name found => s!"'{name}' is {found.article} {found.name}, not a vector"

/-- A value that is not the size of a vector. -/
inductive SizeFault where
  | negative (n : Int64)
  | notInteger (found : Kind)
  | tooLarge (n : Int64)
  deriving DecidableEq

def SizeFault.text : SizeFault → String
  | negative n => s!"{n.toInt} is negative"
  | notInteger found => s!"expected an integer, found {found.name}"
  | tooLarge n => s!"{n.toInt} elements do not fit in memory"

/-- A failure of input or output. -/
inductive ConsoleFault where
  | invalidText
  | writeLimit
  | flushFailed
  deriving DecidableEq

def ConsoleFault.text : ConsoleFault → String
  | invalidText => "stream did not contain valid UTF-8"
  | writeLimit => "write limit reached"
  | flushFailed => "flush failed"

/-- Why a program stops. -/
inductive RuntimeFault where
  | duplicateLabel (name : String) (firstLine : Nat)
  | undefinedLabel (name : String)
  | unknownVariable (name : String)
  | type (fault : TypeFault)
  | divisionByZero
  | moduloType
  | overflow
  | indexOutOfBounds (name : String) (index : Int64) (length : Nat)
  | size (fault : SizeFault)
  | inputExhausted (name : String)
  | console (fault : ConsoleFault)
  deriving DecidableEq

def RuntimeFault.text : RuntimeFault → String
  | duplicateLabel name firstLine => s!"Label '{name}' is already defined on line {firstLine}"
  | undefinedLabel name => s!"Undefined label '{name}'"
  | unknownVariable name => s!"Unknown variable '{name}'"
  | type fault => s!"Type error: {fault.text}"
  | divisionByZero => "Division by zero"
  | moduloType => "Modulo requires integer operands"
  | overflow => "Integer overflow while trying to compute result"
  | indexOutOfBounds name index length =>
    s!"Index {index.toInt} is out of bounds for '{name}' of length {length}"
  | size fault => s!"Invalid vector size: {fault.text}"
  | inputExhausted name => s!"No input left to read into '{name}'"
  | console fault => s!"I/O failure: {fault.text}"

/-- A fault and the line it is reported for. -/
structure RuntimeError where
  fault : RuntimeFault
  line : Nat
  deriving DecidableEq

def RuntimeError.message (e : RuntimeError) : String :=
  s!"Error on line {e.line}: {e.fault.text}."

/-- A result whose fault is reported for the given line. -/
def onLine {α : Type} (line : Nat) : Except RuntimeFault α → Except RuntimeError α
  | .ok a => .ok a
  | .error fault => .error ⟨fault, line⟩

@[simp] theorem onLine_ok {α : Type} (line : Nat) (a : α) : onLine line (.ok a) = .ok a := rfl

@[simp] theorem onLine_error {α : Type} (line : Nat) (fault : RuntimeFault) :
    onLine line (.error fault : Except RuntimeFault α) = .error ⟨fault, line⟩ := rfl

end GotoLang
