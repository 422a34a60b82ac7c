import GotoLang.Program
import GotoLang.SourceError
/- A rule takes tokens from the front of a list. Its result says that the rest is shorter than a
bound, and the recursion of the rules rests on that: a rule that always takes a token has the
length of its list as bound, one that may take none has one more. -/

set_option autoImplicit false

namespace GotoLang.Grammar

/-- What a rule built and the tokens that it left. -/
structure Parsed (α : Type) (bound : Nat) where
  value : α
  rest : List Lexeme
  shorter : rest.length < bound

namespace Parsed

/-- A result that takes the first token. -/
def one {α : Type} (value : α) {l : Lexeme} {rest : List Lexeme} : Parsed α (l :: rest).length :=
  ⟨value, rest, Nat.lt_succ_self rest.length⟩

/-- A result that takes no token. -/
def zero {α : Type} (value : α) {ts : List Lexeme} : Parsed α (ts.length + 1) :=
  ⟨value, ts, Nat.lt_succ_self ts.length⟩

variable {α : Type} (value : α) (l : Lexeme) (ts : List Lexeme)

@[simp] theorem value_one : (one value : Parsed α (l :: ts).length).value = value := rfl

@[simp] theorem rest_one : (one value : Parsed α (l :: ts).length).rest = ts := rfl

@[simp] theorem value_zero : (zero value : Parsed α (ts.length + 1)).value = value := rfl

@[simp] theorem rest_zero : (zero value : Parsed α (ts.length + 1)).rest = ts := rfl

end Parsed

abbrev Parse (α : Type) (bound : Nat) := Except SourceError (Parsed α bound)

/-- Takes one given token. `line` is reported if the tokens end here. -/
def expect (token : Token) (what : Expectation) (line : Nat) :
    (ts : List Lexeme) → Parse Unit ts.length
  | [] => .error ⟨.endOfInput, line⟩
  | l :: _ =>
    if l.token = token then .ok (.one ())
    else .error ⟨.expected what l.token, l.line⟩

def take? (token : Token) : (ts : List Lexeme) → Option (Parsed Unit ts.length)
  | [] => none
  | l :: _ => if l.token = token then some (.one ()) else none

/-- Takes a name, and gives it with its line. `line` is reported if the tokens end here. -/
def identifier (line : Nat) : (ts : List Lexeme) → Parse (String × Nat) ts.length
  | [] => .error ⟨.endOfInput, line⟩
  | ⟨.identifier name, line⟩ :: _ => .ok (.one (name, line))
  | l :: _ => .error ⟨.expected .identifier l.token, l.line⟩

/-- Takes one or more items with commas between them. -/
def commaList {α : Type} (item : (ts : List Lexeme) → Parse α ts.length) (ts : List Lexeme) :
    Parse (List α) ts.length := do
  let ⟨first, rest, short⟩ ← item ts
  match take? (.symbol .comma) rest with
  | none => return ⟨[first], rest, short⟩
  | some ⟨_, rest, _⟩ => do
    let ⟨others, rest, _⟩ ← commaList item rest
    return ⟨first :: others, rest, by omega⟩
  termination_by ts.length

end GotoLang.Grammar
