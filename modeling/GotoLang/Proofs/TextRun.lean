import GotoLang.Engine
import GotoLang.Grammar.Statement

set_option autoImplicit false

namespace GotoLang

/-- Why a text is no program, or why its program stops. -/
inductive Failure where
  | source (e : SourceError)
  | runtime (e : RuntimeError)

/-- How far a run has come: its result, if it has one, the input that is not read and what was
written. -/
structure Report where
  result? : Option (Except Failure Unit)
  input : List UInt8
  output : Sink

def Engine.Progress.report : Progress → Report
  | .running engine => ⟨none, engine.world.input, engine.world.output⟩
  | .ended (.ok _ engine) => ⟨some (.ok ()), engine.world.input, engine.world.output⟩
  | .ended (.error e engine) =>
    ⟨some (.error (.runtime e)), engine.world.input, engine.world.output⟩

/-- Reads a text and runs its program for a number of steps. -/
def runText (source : String) (input : List UInt8) (output : Sink) (prompts : Bool)
    (memory : Nat → Bool) (steps : Nat) : Report :=
  match Program.ofSource source with
  | .error e => ⟨some (.error (.source e)), input, output⟩
  | .ok p =>
    match Engine.start p input output prompts memory with
    | .error e => ⟨some (.error (.runtime e)), input, output⟩
    | .ok engine => (engine.runFor steps).report

theorem runText_of_started {source : String} {p : Program} {input : List UInt8} {output : Sink}
    {prompts : Bool} {memory : Nat → Bool} {first : Engine}
    (parsed : Program.ofSource source = .ok p)
    (started : Engine.start p input output prompts memory = .ok first) (steps : Nat) :
    runText source input output prompts memory steps = (first.runFor steps).report := by
  simp only [runText, parsed, started]

/-- A program that is refused leaves input and output untouched. -/
theorem runText_of_refused {source : String} {p : Program} {e : RuntimeError}
    (parsed : Program.ofSource source = .ok p) (refused : Labels.ofProgram p = .error e)
    (input : List UInt8) (output : Sink) (prompts : Bool) (memory : Nat → Bool) (steps : Nat) :
    runText source input output prompts memory steps =
      ⟨some (.error (.runtime e)), input, output⟩ := by
  have stopped : Engine.start p input output prompts memory = .error e := by
    simp only [Engine.start, refused]
    rfl
  simp only [runText, parsed, stopped]

end GotoLang
