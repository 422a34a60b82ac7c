import GotoLang.Grammar.Expression
import GotoLang.Token.Scan

set_option autoImplicit false

namespace GotoLang.Grammar

def typeAhead : List Lexeme → Bool
  | ⟨.keyword k, _⟩ :: _ => k.opensType
  | _ => false

/-- Whether the tokens start with a declaration: names with commas between them, a colon and the
name of a type. -/
def startsDeclaration : List Lexeme → Bool
  | ⟨.identifier _, _⟩ :: ⟨.symbol .comma, _⟩ :: rest => startsDeclaration rest
  | ⟨.identifier _, _⟩ :: ⟨.symbol .colon, _⟩ :: rest => typeAhead rest
  | _ => false

/-- A label at the front of the tokens, with its line: a label token, or a name and a colon that
does not introduce a type. -/
def label? : (ts : List Lexeme) → Option (Parsed (String × Nat) ts.length)
  | ⟨.label name, line⟩ :: _ => some (.one (name, line))
  | ⟨.identifier name, line⟩ :: ⟨.symbol .colon, _⟩ :: rest =>
    if typeAhead rest then none
    else some ⟨(name, line), rest, by simp only [List.length_cons]; omega⟩
  | _ => none

/-- `size := [ "vector" "[" expression "]" "of" ]`, in a declaration on the given line. -/
def vectorSize (line : Nat) (ts : List Lexeme) : Parse (Option Expr) (ts.length + 1) :=
  match ts with
  | ⟨.keyword .vector, _⟩ :: rest => do
    let ⟨_, rest, _⟩ ← expect (.symbol .leftBracket) .bracketAfterVector line rest
    let ⟨size, rest, _⟩ ← expression rest
    let ⟨_, rest, _⟩ ← expect (.symbol .rightBracket) .bracketAfterSize line rest
    let ⟨_, rest, _⟩ ← expect (.keyword .of) .ofAfterSize line rest
    return ⟨some size, rest, by simp only [List.length_cons]; omega⟩
  | _ => return .zero none

/-- The type of the elements. `line` is reported if the tokens end here. -/
def elementType (line : Nat) : (ts : List Lexeme) → Parse ElementType ts.length
  | [] => .error ⟨.endOfInput, line⟩
  | ⟨.keyword .integer, _⟩ :: _ => .ok (.one .integer)
  | ⟨.keyword .real, _⟩ :: _ => .ok (.one .real)
  | l :: _ => .error ⟨.expected .elementType l.token, l.line⟩

def declaredName (line : Nat) (ts : List Lexeme) : Parse String ts.length := do
  let ⟨(name, _), rest, short⟩ ← identifier line ts
  return ⟨name, rest, short⟩

/-- `declaration := name { "," name } ":" size type` -/
def declaration (ts : List Lexeme) : Parse Statement ts.length := do
  let line := match ts with
    | [] => 0
    | l :: _ => l.line
  let ⟨names, rest, _⟩ ← commaList (declaredName line) ts
  let ⟨_, rest, _⟩ ← expect (.symbol .colon) .colonAfterNames line rest
  let ⟨size, rest, _⟩ ← vectorSize line rest
  let ⟨type, rest, _⟩ ← elementType line rest
  return ⟨.declare names size type line, rest, by omega⟩

/-- `item := "space" | "tab" | "skip" | expression` -/
def writeItem (ts : List Lexeme) : Parse WriteItem ts.length :=
  match ts with
  | ⟨.keyword .space, _⟩ :: _ => return .one (.layout .space)
  | ⟨.keyword .tab, _⟩ :: _ => return .one (.layout .tab)
  | ⟨.keyword .skip, _⟩ :: _ => return .one (.layout .skip)
  | ts => do
    let ⟨e, rest, short⟩ ← expression ts
    return ⟨.expr e, rest, short⟩

/-- `assigned := ":=" expression`, in an assignment on the given line. -/
def assigned (line : Nat) (ts : List Lexeme) : Parse Expr ts.length := do
  let ⟨_, rest, _⟩ ← expect (.symbol .assign) .assignAfterTarget line ts
  let ⟨value, rest, _⟩ ← expression rest
  return ⟨value, rest, by omega⟩

/-- `assignment := target assigned`, on the given line. -/
def assignment (line : Nat) (ts : List Lexeme) : Parse Statement ts.length := do
  let ⟨target, rest, _⟩ ← target line ts
  let ⟨value, rest, _⟩ ← assigned line rest
  return ⟨.assign target value, rest, by omega⟩

def followsEmpty : Token → Bool
  | .symbol .semicolon | .keyword .end_ | .keyword .else_ => true
  | _ => false

/-- Takes what stands after an item of a body: `;` or `end`. The value tells whether it is `end`. -/
def separator (opened : Nat) : (ts : List Lexeme) → Parse Bool ts.length
  | [] => .error ⟨.missingEnd, opened⟩
  | ⟨.symbol .semicolon, _⟩ :: _ => .ok (.one false)
  | ⟨.keyword .end_, _⟩ :: _ => .ok (.one true)
  | l :: _ => .error ⟨.expected .separator l.token, l.line⟩

mutual

/-- `statement := block | loop | if | goto | read | write | assignment | empty`. The empty
statement stands before `;`, `end` or `else` and takes no token. -/
def statement (ts : List Lexeme) : Parse Statement (ts.length + 1) :=
  match ts with
  | [] => .error ⟨.endOfInput, 0⟩
  | ⟨.keyword .begin, line⟩ :: rest => do
    let ⟨body, rest, _⟩ ← body line rest
    return ⟨.block body line, rest, by simp only [List.length_cons]; omega⟩
  | ⟨.keyword .loop, line⟩ :: rest => do
    let ⟨body, rest, _⟩ ← body line rest
    return ⟨.loop body line, rest, by simp only [List.length_cons]; omega⟩
  | ⟨.keyword .if_, line⟩ :: rest => do
    let ⟨conditional, rest, _⟩ ← conditional line rest
    return ⟨conditional, rest, by simp only [List.length_cons]; omega⟩
  | ⟨.keyword .goto, line⟩ :: rest => do
    let ⟨(label, _), rest, _⟩ ← identifier line rest
    return ⟨.goto label line, rest, by simp only [List.length_cons]; omega⟩
  | ⟨.keyword .read, line⟩ :: rest => do
    let ⟨targets, rest, _⟩ ← commaList (target line) rest
    return ⟨.read targets line, rest, by simp only [List.length_cons]; omega⟩
  | ⟨.keyword .write, line⟩ :: rest => do
    let ⟨items, rest, _⟩ ← commaList writeItem rest
    return ⟨.write items line, rest, by simp only [List.length_cons]; omega⟩
  | ⟨.identifier name, line⟩ :: rest => do
    let ⟨assignment, rest, short⟩ ← assignment line (⟨.identifier name, line⟩ :: rest)
    return ⟨assignment, rest, Nat.lt_succ_of_lt short⟩
  | l :: _ =>
    if followsEmpty l.token then return .zero (.empty l.line)
    else .error ⟨.unexpected l.token, l.line⟩
  termination_by 3 * ts.length

/-- `if := expression "then" statement [ "else" statement ]`, after the keyword on the given
line. An `else` belongs to the nearest `if` that is open. -/
def conditional (line : Nat) (ts : List Lexeme) : Parse Statement ts.length := do
  let ⟨condition, rest, _⟩ ← expression ts
  let ⟨_, rest, _⟩ ← expect (.keyword .then_) .thenAfterCondition line rest
  let ⟨branch, rest, _⟩ ← statement rest
  match take? (.keyword .else_) rest with
  | none => return ⟨.ifThen condition branch line, rest, by omega⟩
  | some ⟨_, rest, _⟩ => do
    let ⟨other, rest, _⟩ ← statement rest
    return ⟨.ifThenElse condition branch other line, rest, by omega⟩
  termination_by 3 * ts.length

/-- `item := { label } ( declaration | statement )`. Every label is a statement of its own. -/
def item (ts : List Lexeme) : Parse (List Statement) (ts.length + 1) :=
  match label? ts with
  | some ⟨(name, line), rest, _⟩ => do
    let ⟨labelled, rest, _⟩ ← item rest
    return ⟨.label name line :: labelled, rest, by omega⟩
  | none =>
    if startsDeclaration ts then do
      let ⟨declared, rest, short⟩ ← declaration ts
      return ⟨[declared], rest, Nat.lt_succ_of_lt short⟩
    else do
      let ⟨single, rest, short⟩ ← statement ts
      return ⟨[single], rest, short⟩
  termination_by 3 * ts.length + 1

/-- `body := { item ";" } [ item ] "end"`, opened on the given line. -/
def body (opened : Nat) (ts : List Lexeme) : Parse (List Statement) ts.length :=
  match ts with
  | [] => .error ⟨.missingEnd, opened⟩
  | ⟨.keyword .end_, _⟩ :: _ => return .one []
  | ts => do
    let ⟨first, rest, _⟩ ← item ts
    let ⟨closed, rest, _⟩ ← separator opened rest
    if closed then return ⟨first, rest, by omega⟩
    else do
      let ⟨others, rest, _⟩ ← body opened rest
      return ⟨first ++ others, rest, by omega⟩
  termination_by 3 * ts.length + 2

end

def dropSemicolons : List Lexeme → List Lexeme
  | ⟨.symbol .semicolon, _⟩ :: rest => dropSemicolons rest
  | ts => ts

/-- `program := "begin" body { ";" }`, with nothing after it. -/
def wholeProgram (ts : List Lexeme) : Except SourceError Program :=
  match ts with
  | [] => .error ⟨.notBlock, 1⟩
  | ⟨.keyword .begin, line⟩ :: rest => do
    let ⟨body, rest, _⟩ ← body line rest
    match dropSemicolons rest with
    | [] => return ⟨body, line⟩
    | l :: _ => .error ⟨.trailing l.token, l.line⟩
  | l :: _ => .error ⟨.notBlock, l.line⟩

/-- The line of the last token; 1 if there is none. -/
def lastLine (ts : List Lexeme) : Nat :=
  match ts.getLast? with
  | some l => l.line
  | none => 1

/-- The program that a list of tokens is. Where the tokens end too early, the line of the last
one is reported. -/
def program (ts : List Lexeme) : Except SourceError Program :=
  match wholeProgram ts with
  | .error ⟨.endOfInput, _⟩ => .error ⟨.endOfInput, lastLine ts⟩
  | result => result

end GotoLang.Grammar

namespace GotoLang

def Program.ofSource (source : String) : Except SourceError Program := do
  Grammar.program (← tokenize source)

end GotoLang
