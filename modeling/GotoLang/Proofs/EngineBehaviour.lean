import GotoLang.Proofs.ActionFrame
import GotoLang.Proofs.Behaviour
import GotoLang.Proofs.EngineStep

set_option autoImplicit false

namespace GotoLang

def Outcome.conclusion : Outcome Unit → Conclusion
  | .ok _ engine => ⟨.ok (), engine.world⟩
  | .error e engine => ⟨.error e, engine.world⟩

namespace Engine

def Progress.stage : Progress → Stage
  | .running engine => .running engine.world
  | .ended outcome => .ended outcome.conclusion

/-- The operations of the next step. -/
def operations (engine : Engine) : List Operation :=
  match engine.jump?, engine.position with
  | none, frame :: _ =>
    match frame.current? with
    | some s => s.operations engine.world
    | none => []
  | _, _ => []

def trace : Nat → Engine → List Event
  | 0, _ => []
  | n + 1, engine => engine.operations.map (Event.mk engine.world) ++
    match engine.step with
    | .ok true next => trace n next
    | _ => []

def behaviour (engine : Engine) : Behaviour where
  stage n := (engine.runFor n).stage
  events n := engine.trace n

/-- The engine as a machine whose last step ends the run. -/
def automaton : Automaton Engine where
  step engine :=
    match engine.step with
    | .ok true next => .ok next
    | .ok false last => .error last.finish.conclusion
    | .error e last => .error ⟨.error e, last.world⟩
  operations := operations
  world := Engine.world

theorem stage_runFor (n : Nat) (engine : Engine) :
    (engine.runFor n).stage = automaton.stage n engine := by
  induction n generalizing engine with
  | zero => rfl
  | succ n ih =>
    simp only [runFor, Automaton.stage, automaton]
    cases engine.step with
    | ok goes next =>
      cases goes with
      | true => exact ih next
      | false => rfl
    | error e last => rfl

theorem trace_eq (n : Nat) (engine : Engine) : engine.trace n = automaton.trace n engine := by
  induction n generalizing engine with
  | zero => rfl
  | succ n ih =>
    simp only [trace, Automaton.trace, Automaton.events, automaton]
    cases engine.step with
    | ok goes next =>
      cases goes with
      | true => exact congrArg (engine.operations.map (Event.mk engine.world) ++ ·) (ih next)
      | false => rfl
    | error e last => rfl

theorem behaviour_eq (engine : Engine) : engine.behaviour = automaton.behaviour engine := by
  simp only [behaviour, Automaton.behaviour, stage_runFor, trace_eq]

/-- A run of the engine ends in one way. -/
theorem ended_unique {engine : Engine} {n m : Nat} {one other : Conclusion}
    (first : engine.behaviour.stage n = .ended one)
    (second : engine.behaviour.stage m = .ended other) : one = other := by
  rw [behaviour_eq] at first second
  exact Automaton.ended_unique first second

theorem finish_of_flushes {engine : Engine}
    (flushes : ∀ size, engine.world.output.failFlush size = false) :
    engine.finish = .ok () engine := by
  simp only [finish, Action.flush_apply, Sink.refusesFlush, flushes, Bool.false_eq_true, if_false]

/-- The world after a step is what the operations of the step make of it. -/
theorem stepped_world (engine : Engine) :
    engine.step.engine.world = engine.operations.foldl Operation.perform engine.world := by
  have moved := engine.step_move
  generalize engine.step = outcome at moved
  cases moved with
  | land jump marker pending found =>
    rw [operations, pending]
    rfl
  | lose jump pending missing =>
    rw [operations, pending]
    rfl
  | rest free nowhere =>
    rw [operations, free, nowhere]
    rfl
  | restart frame outer free stands atEnd isLoop =>
    simp only [operations, free, stands, atEnd]
    rfl
  | close frame outer free stands atEnd isBlock =>
    simp only [operations, free, stands, atEnd]
    rfl
  | execute frame outer s flow world free stands here executed =>
    simp only [operations, free, stands, here, ← s.stateAfter_execute, executed]
    cases flow <;> rfl
  | fail frame outer s e world free stands here failed =>
    simp only [operations, free, stands, here, ← s.stateAfter_execute, failed]
    rfl

end Engine

end GotoLang
