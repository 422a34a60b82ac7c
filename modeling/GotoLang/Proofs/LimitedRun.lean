import GotoLang.Proofs.EngineBehaviour
import GotoLang.Proofs.LimitedOutput

set_option autoImplicit false

namespace GotoLang

namespace Engine

def limited (engine : Engine) (limit : Nat) : Engine :=
  { engine with world := engine.world.limited limit }

def Progress.engine : Progress → Engine
  | running engine => engine
  | ended outcome => outcome.engine

def Progress.limited (limit : Nat) : Progress → Progress
  | running engine => running (engine.limited limit)
  | ended outcome => ended (mapState (·.limited limit) outcome)

variable {engine : Engine} {limit : Nat}

/-- A step leads only to worlds that the changes of effects are allowed to lead to. -/
theorem step_within {r : World → World → Prop} [IsPreorder World r] (allows : World.Allows r)
    (engine : Engine) : r engine.world engine.step.engine.world := by
  have move := engine.step_move
  generalize engine.step = outcome at move
  cases move with
  | land | lose | rest | restart | close => exact refl_of r engine.world
  | execute _ _ s flow world _ _ _ executed =>
    have within := s.execute_within allows engine.world
    rw [executed] at within
    cases flow <;> exact within
  | fail _ _ s e world _ _ _ failed =>
    have within := s.execute_within allows engine.world
    rwa [failed] at within

theorem finish_world (engine : Engine) : engine.finish.engine.world = engine.world := by
  rw [finish, Action.flush_apply]
  by_cases fails : engine.world.output.refusesFlush
  · rw [if_pos fails]
    rfl
  · rw [if_neg fails]
    rfl

/-- Behind its first step a run goes on from where that has led. -/
theorem runFor_succ_world (n : Nat) (engine : Engine) :
    (engine.runFor (n + 1)).engine.world =
      match engine.step with
      | .ok true next => (next.runFor n).engine.world
      | _ => engine.step.engine.world := by
  rw [runFor]
  cases engine.step with
  | ok goes next =>
    cases goes with
    | true => rfl
    | false => exact finish_world next
  | error e last => rfl

end Engine

end GotoLang
