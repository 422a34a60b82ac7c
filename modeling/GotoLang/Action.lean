import GotoLang.Console
import GotoLang.Environment
import GotoLang.Label

set_option autoImplicit false

namespace GotoLang

/-- What statements act on. -/
structure World where
  environment : Environment
  input : List UInt8
  output : Sink
  prompts : Bool
  /-- Whether the memory takes a vector of so many elements. -/
  memory : Nat → Bool

/-- An effect on the world with a result or an error. -/
abbrev Action (α : Type) := EStateM RuntimeError World α

namespace Action

def ofResult {α : Type} : Except RuntimeError α → Action α
  | .ok a => pure a
  | .error e => throw e

def evaluate (e : Expr) : Action Value := do
  ofResult (e.eval (← get).environment)

def store (target : Target) (value : Value) : Action Unit := do
  let environment ← ofResult ((← get).environment.store target value)
  modify ({ · with environment })

def declare (value : Value) (name : String) : Action Unit :=
  modify fun world => { world with environment := world.environment.declare name value }

/-- Writes a text for the statement on the given line. -/
def emit (line : Nat) (text : String) : Action Unit := do
  let world ← get
  let (output, complete) := world.output.write text.toUTF8
  set { world with output }
  unless complete do throw ⟨.console .writeLimit, line⟩

def flush (line : Nat) : Action Unit := do
  if (← get).output.refusesFlush then throw ⟨.console .flushFailed, line⟩

/-- Takes a line of input for the variable of the given name. The line is taken even if it is no
text. -/
def nextLine (line : Nat) (name : String) : Action String := do
  let world ← get
  let (bytes, input) := splitLine world.input
  set { world with input }
  match String.fromUTF8? bytes.toByteArray with
  | none => throw ⟨.console .invalidText, line⟩
  | some text =>
    if bytes = [] then throw ⟨.inputExhausted name, line⟩ else return text

def prompt (line : Nat) (name : String) : Action Unit := do
  if (← get).prompts then
    emit line s!"Enter value for {name}: "
    flush line

def readTarget (line : Nat) (target : Target) : Action Unit := do
  prompt line target.name
  let text ← nextLine line target.name
  store target (.ofLine text)

def writeItem (line : Nat) : WriteItem → Action Unit
  | .expr e => do
    let value ← evaluate e
    emit line value.toText
  | .layout .space => emit line " "
  | .layout .tab => emit line "\t"
  | .layout .skip => pure ()

end Action

def ElementType.initial : ElementType → Value
  | integer => .integer 0
  | real => .real (Binary64.zero false)

/-- A vector of initial values whose length is a value, if the memory takes it. -/
def ElementType.vector (type : ElementType) (memory : Nat → Bool) :
    Value → Except RuntimeFault Value
  | .integer n =>
    if n.toInt < 0 then .error (.size (.negative n))
    else if memory n.toInt.toNat then .ok (.vector (List.replicate n.toInt.toNat type.initial))
    else .error (.size (.tooLarge n))
  | size => .error (.size (.notInteger size.kind))

def Action.vector (type : ElementType) (length : Value) (line : Nat) : Action Value := do
  ofResult (onLine line (type.vector (← get).memory length))

/-- The value that a declaration gives to its names. -/
def Action.initial (size : Option Expr) (type : ElementType) (line : Nat) : Action Value :=
  match size with
  | none => return type.initial
  | some size => do
    let length ← evaluate size
    vector type length line

/-- Where execution goes on after a statement: behind it, into a sequence, or to a label. -/
inductive Flow where
  | next
  | enter (frame : Frame)
  | jump (label : String) (line : Nat)

/-- Executes a statement. An `if` executes a branch in its place; a block or loop is not executed
here but entered, and a `goto` is only announced. -/
def Statement.execute : Statement → Action Flow
  | block body _ => return .enter ⟨body, 0, false⟩
  | loop body _ => return .enter ⟨body, 0, true⟩
  | ifThen condition branch _ => do
    let value ← Action.evaluate condition
    if value.holds then branch.execute else return .next
  | ifThenElse condition branch other _ => do
    let value ← Action.evaluate condition
    if value.holds then branch.execute else other.execute
  | declare names size type line => do
    let value ← Action.initial size type line
    names.forM (Action.declare value)
    return .next
  | assign target e => do
    let value ← Action.evaluate e
    Action.store target value
    return .next
  | read targets line => do
    targets.forM (Action.readTarget line)
    return .next
  | write items line => do
    items.forM (Action.writeItem line)
    Action.emit line "\n"
    return .next
  | goto name line => return .jump name line
  | label _ _ | empty _ => return .next

end GotoLang
