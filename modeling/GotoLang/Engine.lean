import GotoLang.Action
/- The engine holds a position instead of recursing through the program, so that a jump can lead
anywhere. It goes on in steps: carry out a jump that was announced, close or restart a sequence
that is at its end, or execute one statement. -/

set_option autoImplicit false

namespace GotoLang

/-- A `goto` that was executed and not carried out yet. -/
structure Jump where
  label : String
  line : Nat
  deriving DecidableEq

/-- A program that is being executed. `line` is the line of the last statement that was begun. -/
structure Engine where
  labels : Labels
  position : Position
  jump? : Option Jump
  world : World
  line : Nat

abbrev Outcome (α : Type) := EStateM.Result RuntimeError Engine α

namespace Engine

/-- A program about to be executed in a world without variables. A name with two labels is an
error. -/
def start (p : Program) (input : List UInt8) (output : Sink) (prompts : Bool)
    (memory : Nat → Bool) : Except RuntimeError Engine := do
  let labels ← Labels.ofProgram p
  return {
    labels
    position := [p.root]
    jump? := none
    world := { environment := .empty, input, output, prompts, memory }
    line := p.line }

def advance : Position → Position
  | [] => []
  | frame :: outer => frame.next :: outer

def follow (engine : Engine) : Flow → Engine
  | .next => { engine with position := advance engine.position }
  | .enter frame => { engine with position := frame :: engine.position }
  | .jump label line => { engine with jump? := some ⟨label, line⟩ }

/-- Carries out a jump; the position stays if its label does not exist. -/
def carryOut (engine : Engine) (jump : Jump) : Outcome Bool :=
  match engine.labels.resolve jump.label jump.line with
  | .ok marker => .ok true { engine with position := marker.position, jump? := none }
  | .error e => .error e { engine with jump? := none }

def perform (engine : Engine) (statement : Statement) : Outcome Bool :=
  match statement.execute engine.world with
  | .ok flow world => .ok true ({ engine with world, line := statement.line }.follow flow)
  | .error e world => .error e { engine with world, line := statement.line }

/-- Takes one step. The value tells whether there was something to do. -/
def step (engine : Engine) : Outcome Bool :=
  match engine.jump?, engine.position with
  | some jump, _ => engine.carryOut jump
  | none, [] => .ok false engine
  | none, frame :: outer =>
    match frame.current? with
    | some statement => engine.perform statement
    | none =>
      if frame.isLoop then .ok true { engine with position := frame.restart :: outer }
      else .ok true { engine with position := advance outer }

def isHalted (engine : Engine) : Bool :=
  engine.position.isEmpty && engine.jump?.isNone

/-- Ends a run: what was written is passed on. -/
def finish (engine : Engine) : Outcome Unit :=
  match Action.flush engine.line engine.world with
  | .ok _ world => .ok () { engine with world }
  | .error e world => .error e { engine with world }

/-- How far a run of a number of steps has come. -/
inductive Progress where
  | running (engine : Engine)
  | ended (outcome : Outcome Unit)

/-- Takes steps until the program ends or fails, or the given number of steps is used up. -/
def runFor : Nat → Engine → Progress
  | 0, engine => .running engine
  | steps + 1, engine =>
    match engine.step with
    | .ok true engine => runFor steps engine
    | .ok false engine => .ended engine.finish
    | .error e engine => .ended (.error e engine)

end Engine

end GotoLang
