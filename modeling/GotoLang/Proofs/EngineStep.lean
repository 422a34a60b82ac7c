import GotoLang.Engine
import Mathlib.Logic.Function.Iterate

set_option autoImplicit false

namespace GotoLang

/-- The engine after an action, whether or not the action failed. -/
def Outcome.engine {α : Type} : Outcome α → Engine
  | .ok _ engine => engine
  | .error _ engine => engine

def Outcome.error? {α : Type} : Outcome α → Option RuntimeError
  | .ok _ _ => none
  | .error e _ => some e

theorem Outcome.error?_eq_some_iff {α : Type} {outcome : Outcome α} {e : RuntimeError} :
    outcome.error? = some e ↔ ∃ after, outcome = .error e after := by
  cases outcome with
  | ok a after => simp [error?]
  | error f after => simp [error?]

namespace Engine

/-- What a step of an engine does. -/
inductive Move (engine : Engine) : Outcome Bool → Prop
  | land (jump : Jump) (marker : Marker) (pending : engine.jump? = some jump)
      (found : engine.labels.find? jump.label = some marker) :
      Move engine (.ok true { engine with position := marker.position, jump? := none })
  | lose (jump : Jump) (pending : engine.jump? = some jump)
      (missing : engine.labels.find? jump.label = none) :
      Move engine (.error ⟨.undefinedLabel jump.label, jump.line⟩ { engine with jump? := none })
  | rest (free : engine.jump? = none) (nowhere : engine.position = []) :
      Move engine (.ok false engine)
  | restart (frame : Frame) (outer : Position) (free : engine.jump? = none)
      (stands : engine.position = frame :: outer) (atEnd : frame.current? = none)
      (isLoop : frame.isLoop = true) :
      Move engine (.ok true { engine with position := frame.restart :: outer })
  | close (frame : Frame) (outer : Position) (free : engine.jump? = none)
      (stands : engine.position = frame :: outer) (atEnd : frame.current? = none)
      (isBlock : frame.isLoop = false) :
      Move engine (.ok true { engine with position := advance outer })
  | execute (frame : Frame) (outer : Position) (s : Statement) (flow : Flow) (world : World)
      (free : engine.jump? = none) (stands : engine.position = frame :: outer)
      (here : frame.current? = some s) (executed : s.execute engine.world = .ok flow world) :
      Move engine (.ok true ({ engine with world, line := s.line }.follow flow))
  | fail (frame : Frame) (outer : Position) (s : Statement) (e : RuntimeError) (world : World)
      (free : engine.jump? = none) (stands : engine.position = frame :: outer)
      (here : frame.current? = some s) (failed : s.execute engine.world = .error e world) :
      Move engine (.error e { engine with world, line := s.line })

theorem step_move (engine : Engine) : engine.Move engine.step := by
  obtain ⟨labels, position, jump?, world, line⟩ := engine
  cases jump? with
  | some jump =>
    cases found : labels.find? jump.label with
    | some marker =>
      simp only [step, carryOut, Labels.resolve, found]
      exact .land jump marker rfl found
    | none =>
      simp only [step, carryOut, Labels.resolve, found]
      exact .lose jump rfl found
  | none =>
    cases position with
    | nil => exact .rest rfl rfl
    | cons frame outer =>
      cases here : frame.current? with
      | some s =>
        simp only [step, here, perform]
        cases executed : s.execute world with
        | ok flow after => exact .execute frame outer s flow after rfl rfl here executed
        | error e after => exact .fail frame outer s e after rfl rfl here executed
      | none =>
        simp only [step, here]
        cases isLoop : frame.isLoop with
        | true => exact .restart frame outer rfl rfl here isLoop
        | false => exact .close frame outer rfl rfl here isLoop

/-- The states that calls of `step` lead to, failed calls included. -/
inductive Reachable (first : Engine) : Engine → Prop
  | start : Reachable first first
  | call {engine : Engine} (reached : Reachable first engine) :
      Reachable first engine.step.engine

/-- The engine after a number of calls of `step`, failed ones included. -/
def afterCalls (calls : Nat) (engine : Engine) : Engine :=
  (fun engine => engine.step.engine)^[calls] engine

theorem afterCalls_succ (calls : Nat) (engine : Engine) :
    engine.afterCalls (calls + 1) = (engine.afterCalls calls).step.engine :=
  Function.iterate_succ_apply' _ calls engine

theorem Reachable.afterCalls {first engine : Engine} (reached : Reachable first engine)
    (calls : Nat) : Reachable first (engine.afterCalls calls) := by
  induction calls with
  | zero => exact reached
  | succ calls ih =>
    rw [afterCalls_succ]
    exact .call ih

/-- What holds at first and is kept by every move holds in every reachable state. -/
theorem Reachable.invariant {first engine : Engine} {holds : Engine → Prop}
    (reached : Reachable first engine) (initially : holds first)
    (kept : ∀ engine outcome, holds engine → engine.Move outcome → holds outcome.engine) :
    holds engine := by
  induction reached with
  | start => exact initially
  | call _ ih => exact kept _ _ ih (step_move _)

def initial (p : Program) (input : List UInt8) (output : Sink) (prompts : Bool)
    (memory : Nat → Bool) : Engine where
  labels := ⟨p.markers⟩
  position := [p.root]
  jump? := none
  world := { environment := .empty, input, output, prompts, memory }
  line := p.line

theorem start_eq (p : Program) (input : List UInt8) (output : Sink) (prompts : Bool)
    (memory : Nat → Bool) :
    start p input output prompts memory =
      (Labels.ofProgram p).map fun _ => initial p input output prompts memory := by
  unfold start Labels.ofProgram
  cases duplicate? [] p.markers <;> rfl

theorem eq_initial_of_start {p : Program} {input : List UInt8} {output : Sink} {prompts : Bool}
    {memory : Nat → Bool} {engine : Engine}
    (started : start p input output prompts memory = .ok engine) :
    engine = initial p input output prompts memory := by
  rw [start_eq] at started
  cases built : Labels.ofProgram p with
  | error e =>
    rw [built] at started
    cases started
  | ok labels =>
    rw [built] at started
    cases started
    rfl

end Engine

end GotoLang
