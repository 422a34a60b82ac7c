import GotoLang.Grammar.Statement
import GotoLang.Proofs.EngineStep
import GotoLang.Proofs.ReadWrite

set_option autoImplicit false

namespace GotoLang

/-- The statement that is executed in the place of a statement: the statement itself, or a branch
of an `if`, through any number of them. There is none if no branch is chosen, and an error if a
condition has no value. -/
def Statement.chosen (env : Environment) : Statement → Except RuntimeError (Option Statement)
  | ifThen condition branch _ => do
    let value ← condition.eval env
    if value.holds then branch.chosen env else return none
  | ifThenElse condition branch other _ => do
    let value ← condition.eval env
    if value.holds then branch.chosen env else other.chosen env
  | s => return some s

/-- What a statement that failed has left behind. A `read` has filled the targets before the one
that it failed on and has taken as many lines, or one more, without a trace of the other targets. A
`write` has only written. -/
def Statement.LeftBehind (world after : World) : Statement → Prop
  | declare _ _ _ _ | assign _ _ => after = world
  | write items _ => ∃ output, after = { world with output } ∧
      world.output.GrownBy output (textOf world.environment items)
  | read targets _ => ∃ done target rest environment input left output,
      targets = done ++ target :: rest ∧
      Fills world.environment world.input done environment input ∧
      (∀ name, (∀ filled ∈ done, name ≠ filled.name) →
        environment.find? name = world.environment.find? name) ∧
      (left = input ∨ left = (splitLine input).2) ∧
      world.output.GrownBy output (promptsOf world.prompts (done ++ [target])) ∧
      after = { world with environment, input := left, output }
  | _ => False

namespace Action

variable {α : Type} {world after : World} {e : RuntimeError}

theorem evaluate_apply (expression : Expr) (world : World) :
    evaluate expression world =
      match expression.eval world.environment with
      | .ok value => .ok value world
      | .error e => .error e world := by
  show ofResult (expression.eval world.environment) world = _
  cases expression.eval world.environment <;> rfl

theorem vector_apply (type : ElementType) (length : Value) (line : Nat) (world : World) :
    vector type length line world =
      match onLine line (type.vector world.memory length) with
      | .ok value => .ok value world
      | .error e => .error e world := by
  show ofResult (onLine line (type.vector world.memory length)) world = _
  cases onLine line (type.vector world.memory length) <;> rfl

theorem initial_error {size : Option Expr} {type : ElementType} {line : Nat}
    (failed : initial size type line world = .error e after) : after = world := by
  cases size with
  | none => cases failed
  | some size =>
    rcases bind_eq_error_iff.1 failed with failed | ⟨length, between, evaluated, failed⟩
    · rw [evaluate_apply] at failed
      split at failed <;> cases failed
      rfl
    · rw [vector_apply] at failed
      rw [evaluate_apply] at evaluated
      split at failed <;> cases failed
      split at evaluated <;> cases evaluated
      rfl

end Action

/-- An effect that fails has left behind what the statement says. -/
theorem Effect.leftBehind {world after : World} {e : RuntimeError} {s : Statement} {effect : Effect}
    (acts : s.effect? = some effect) (failed : effect.run world = .error e after) :
    s.LeftBehind world after := by
  cases s with
  | declare names size type line =>
    cases acts
    rcases Action.bind_eq_error_iff.1 failed with failed | ⟨value, between, _, failed⟩
    · exact Action.initial_error failed
    · obtain ⟨_, _, _, _, _, _, impossible⟩ := Action.forM_eq_error failed
      cases impossible
  | assign target expression =>
    cases acts
    rcases Action.bind_eq_error_iff.1 failed with failed | ⟨value, between, evaluated, failed⟩
    · rw [Action.evaluate_apply] at failed
      split at failed <;> cases failed
      rfl
    · rw [Action.store_apply] at failed
      rw [Action.evaluate_apply] at evaluated
      split at failed <;> cases failed
      split at evaluated <;> cases evaluated
      rfl
  | read targets line =>
    cases acts
    obtain ⟨done, target, rest, environment, input, output, left, split, filled, taken, grown,
      rfl⟩ := Action.readTargets_error failed
    exact ⟨done, target, rest, environment, input, left, output, split, filled,
      fun _ other => filled.find?_eq other, taken, grown, rfl⟩
  | write items line =>
    cases acts
    rcases Action.bind_eq_error_iff.1 failed with failed | ⟨_, between, written, failed⟩
    · exact Action.writeItems_error failed
    · obtain rfl := Action.writeItems_ok written
      rw [Action.emit_newline_error failed]
      exact ⟨_, rfl, .of_add _ _⟩
  | block | loop | ifThen | ifThenElse | goto | label | empty => cases acts

namespace Statement

variable {s t : Statement} {world after : World} {e : RuntimeError}

theorem chosen_ifThen (env : Environment) (condition : Expr) (branch : Statement) (line : Nat) :
    (ifThen condition branch line).chosen env =
      match condition.eval env with
      | .ok value => if value.holds then branch.chosen env else .ok none
      | .error e => .error e := by
  rw [chosen]
  cases condition.eval env <;> rfl

theorem chosen_ifThenElse (env : Environment) (condition : Expr) (branch other : Statement)
    (line : Nat) :
    (ifThenElse condition branch other line).chosen env =
      match condition.eval env with
      | .ok value => if value.holds then branch.chosen env else other.chosen env
      | .error e => .error e := by
  rw [chosen]
  cases condition.eval env <;> rfl

/-- Executing a statement is executing the one in its place. -/
theorem execute_eq_chosen (s : Statement) (world : World) :
    s.execute world =
      match s.chosen world.environment with
      | .ok (some t) => t.execute world
      | .ok none => .ok .next world
      | .error e => .error e world := by
  induction s with
  | ifThen condition branch line ih =>
    rw [execute, evaluate_bind, chosen_ifThen]
    cases condition.eval world.environment with
    | error e => rfl
    | ok value =>
      by_cases holds : value.holds = true
      · simp only [if_pos holds]
        exact ih
      · simp only [if_neg holds]
        rfl
  | ifThenElse condition branch other line ihBranch ihOther =>
    rw [execute, evaluate_bind, chosen_ifThenElse]
    cases condition.eval world.environment with
    | error e => rfl
    | ok value =>
      by_cases holds : value.holds = true
      · simp only [if_pos holds]
        exact ihBranch
      · simp only [if_neg holds]
        exact ihOther
  | _ => rfl

/-- A statement in the place of another one has an effect, or only says where execution goes on. -/
theorem effect_or_pure_of_chosen {env : Environment} (found : s.chosen env = .ok (some t)) :
    (∃ effect, t.effect? = some effect) ∨ ∃ flow, t.execute = pure flow := by
  induction s with
  | ifThen condition branch line ih =>
    rw [chosen_ifThen] at found
    split at found
    · split at found
      · exact ih found
      · cases found
    · cases found
  | ifThenElse condition branch other line ihBranch ihOther =>
    rw [chosen_ifThenElse] at found
    split at found
    · split at found
      · exact ihBranch found
      · exact ihOther found
    · cases found
  | declare | assign | read | write =>
    cases found
    exact Or.inl ⟨_, rfl⟩
  | block | loop | goto | label | empty =>
    cases found
    exact Or.inr ⟨_, rfl⟩

/-- A statement fails in a condition, or it is the statement in its place that fails. -/
theorem failure (failed : s.execute world = .error e after) :
    (s.chosen world.environment = .error e ∧ after = world) ∨
      ∃ t, s.chosen world.environment = .ok (some t) ∧ t.LeftBehind world after := by
  rw [execute_eq_chosen] at failed
  split at failed
  · rename_i t found
    refine Or.inr ⟨t, found, ?_⟩
    rcases effect_or_pure_of_chosen found with ⟨effect, acts⟩ | ⟨flow, only⟩
    · rw [execute_of_effect? acts] at failed
      rcases Action.bind_eq_error_iff.1 failed with failed | ⟨_, _, _, impossible⟩
      · exact effect.leftBehind acts failed
      · cases impossible
    · rw [only] at failed
      cases failed
  · cases failed
  · rename_i untested
    cases failed
    exact Or.inl ⟨untested, rfl⟩

end Statement

namespace Engine

end Engine

end GotoLang
