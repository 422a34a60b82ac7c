import GotoLang.Token

set_option autoImplicit false

namespace GotoLang

/-- What the grammar called for where something else stood. -/
inductive Expectation where
  | expression
  | identifier
  | elementType
  | separator
  | thenAfterCondition
  | assignAfterTarget
  | colonAfterNames
  | bracketAfterVector
  | bracketAfterSize
  | ofAfterSize
  | bracketAfterIndex
  | parenAfterExpression
  deriving DecidableEq

def Expectation.text : Expectation → String
  | expression => "an expression"
  | identifier => "an identifier"
  | elementType => "'integer' or 'real'"
  | separator => "';' or 'end'"
  | thenAfterCondition => "'then' after the condition"
  | assignAfterTarget => "':=' in assignment"
  | colonAfterNames => "':' after the declared names"
  | bracketAfterVector => "'[' after 'vector'"
  | bracketAfterSize => "']' after the vector size"
  | ofAfterSize => "'of' after the vector size"
  | bracketAfterIndex => "']' after the index"
  | parenAfterExpression => "')' after the expression"

/-- Why a source text is not a program. -/
inductive SourceFault where
  | strayCharacter (c : Char)
  | invalidNumber (literal : String)
  | unterminatedComment
  | unexpected (token : Token)
  | trailing (token : Token)
  | expected (what : Expectation) (found : Token)
  | endOfInput
  | missingEnd
  | notBlock
  deriving DecidableEq

def SourceFault.text : SourceFault → String
  | strayCharacter c => s!"Unexpected token: {c}"
  | invalidNumber literal => s!"Invalid number '{literal}'"
  | unterminatedComment => "Unterminated comment"
  | unexpected token => s!"Unexpected token: {token.toText}"
  | trailing token => s!"Unexpected token: {token.toText} after the program's final 'end'"
  | expected what found => s!"Expected {what.text}, found {found.toText}"
  | endOfInput => "Unexpected end of input"
  | missingEnd => "Expected 'end' to close the block opened here"
  | notBlock => "Program must be a single 'begin ... end' block"

/-- A fault and the line it is reported for. -/
structure SourceError where
  fault : SourceFault
  line : Nat
  deriving DecidableEq

def SourceError.message (e : SourceError) : String :=
  s!"Error on line {e.line}: {e.fault.text}."

end GotoLang
