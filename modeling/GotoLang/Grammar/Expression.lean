import GotoLang.Grammar.Basic

set_option autoImplicit false

namespace GotoLang

def Token.binaryOperator? : Token → Option BinaryOperator
  | .symbol .plus => some .add
  | .symbol .minus => some .sub
  | .symbol .star => some .mul
  | .symbol .slash => some .div
  | .keyword .mod => some .mod
  | .symbol .equal => some .equal
  | .symbol .notEqual => some .notEqual
  | .symbol .less => some .less
  | .symbol .lessEqual => some .lessEqual
  | .symbol .greater => some .greater
  | .symbol .greaterEqual => some .greaterEqual
  | _ => none

/-- How many levels bind tighter. -/
def Level.rank : Level → Nat
  | multiplicative => 0
  | additive => 1
  | relational => 2

theorem Level.rank_le (level : Level) : level.rank ≤ 2 := by
  cases level <;> decide

namespace Grammar

/-- The operator of a level at the front of the tokens, with its line and what follows. -/
def operator? (level : Level) : (ts : List Lexeme) → Option (Parsed (BinaryOperator × Nat) ts.length)
  | [] => none
  | l :: _ =>
    match l.token.binaryOperator? with
    | some op => if op.level = level then some (.one (op, l.line)) else none
    | none => none

mutual

/-- `binary := operand { operator operand }`, with the operators of one level. -/
def binary (level : Level) (ts : List Lexeme) : Parse Expr ts.length := do
  let ⟨left, rest, _⟩ ← operand level ts
  let ⟨whole, rest, _⟩ ← operations level left rest
  return ⟨whole, rest, by omega⟩
  termination_by 8 * ts.length + 2 * level.rank + 3

/-- The operations that follow a left operand. -/
def operations (level : Level) (left : Expr) (ts : List Lexeme) : Parse Expr (ts.length + 1) :=
  match operator? level ts with
  | none => return .zero left
  | some ⟨(op, line), rest, _⟩ => do
    let ⟨right, rest, _⟩ ← operand level rest
    let ⟨whole, rest, _⟩ ← operations level (.binary op left right line) rest
    return ⟨whole, rest, by omega⟩
  termination_by 8 * ts.length
  decreasing_by all_goals have := level.rank_le; omega

/-- An operand of a level is an expression of the next tighter one. -/
def operand (level : Level) (ts : List Lexeme) : Parse Expr ts.length :=
  match level with
  | .relational => binary .additive ts
  | .additive => binary .multiplicative ts
  | .multiplicative => unary ts
  termination_by 8 * ts.length + 2 * level.rank + 2
  decreasing_by all_goals simp only [Level.rank]; omega

/-- `unary := "-" unary | term` -/
def unary (ts : List Lexeme) : Parse Expr ts.length :=
  match ts with
  | ⟨.symbol .minus, line⟩ :: rest => do
    let ⟨operand, rest, short⟩ ← unary rest
    return ⟨.negate operand line, rest, Nat.lt_succ_of_lt short⟩
  | ts => term ts
  termination_by 8 * ts.length + 1

/-- `term := number | name [ "[" expression "]" ] | "(" expression ")"` -/
def term (ts : List Lexeme) : Parse Expr ts.length :=
  match ts with
  | [] => .error ⟨.endOfInput, 0⟩
  | ⟨.integer n, line⟩ :: _ => return .one (.integer n line)
  | ⟨.real r, line⟩ :: _ => return .one (.real r line)
  | ⟨.identifier name, line⟩ :: rest => do
    let ⟨index, rest, short⟩ ← index line rest
    match index with
    | none => return ⟨.var name line, rest, short⟩
    | some index => return ⟨.element name index line, rest, short⟩
  | ⟨.symbol .leftParen, line⟩ :: rest => do
    let ⟨inner, rest, _⟩ ← binary .relational rest
    let ⟨_, rest, _⟩ ← expect (.symbol .rightParen) .parenAfterExpression line rest
    return ⟨inner, rest, by simp only [List.length_cons]; omega⟩
  | l :: _ => .error ⟨.expected .expression l.token, l.line⟩
  termination_by 8 * ts.length
  decreasing_by all_goals simp only [List.length_cons, Level.rank]; omega

/-- `index := [ "[" expression "]" ]`, after a name on the given line. -/
def index (line : Nat) (ts : List Lexeme) : Parse (Option Expr) (ts.length + 1) :=
  match ts with
  | ⟨.symbol .leftBracket, _⟩ :: rest => do
    let ⟨inner, rest, _⟩ ← binary .relational rest
    let ⟨_, rest, _⟩ ← expect (.symbol .rightBracket) .bracketAfterIndex line rest
    return ⟨some inner, rest, by simp only [List.length_cons]; omega⟩
  | _ => return .zero none
  termination_by 8 * ts.length
  decreasing_by all_goals simp only [List.length_cons, Level.rank]; omega

end

def expression (ts : List Lexeme) : Parse Expr ts.length :=
  binary .relational ts

/-- `target := name [ "[" expression "]" ]`. `line` is reported if the tokens end here. -/
def target (line : Nat) (ts : List Lexeme) : Parse Target ts.length := do
  let ⟨(name, line), rest, _⟩ ← identifier line ts
  let ⟨index, rest, _⟩ ← index line rest
  return ⟨⟨name, index, line⟩, rest, by omega⟩

end Grammar

end GotoLang
