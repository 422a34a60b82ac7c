import GotoLang.Action
import GotoLang.Proofs.StatementTree

set_option autoImplicit false

namespace GotoLang

/-- What a statement does to the world. -/
inductive Effect where
  | declare (names : List String) (size : Option Expr) (type : ElementType) (line : Nat)
  | assign (target : Target) (value : Expr)
  | read (targets : List Target) (line : Nat)
  | write (items : List WriteItem) (line : Nat)
  deriving DecidableEq

def Effect.run : Effect → Action Unit
  | declare names size type line => do
    let value ← Action.initial size type line
    names.forM (Action.declare value)
  | assign target e => do
    let value ← Action.evaluate e
    Action.store target value
  | read targets line => targets.forM (Action.readTarget line)
  | write items line => do
    items.forM (Action.writeItem line)
    Action.emit line "\n"

/-- What a program does that can be told from outside: it tests a condition or has an effect. -/
inductive Operation where
  | test (condition : Expr)
  | act (effect : Effect)
  deriving DecidableEq

/-- The state after an action, whether or not the action failed. -/
def stateAfter {ε σ α : Type} : EStateM.Result ε σ α → σ
  | .ok _ s => s
  | .error _ s => s

def Operation.perform (world : World) : Operation → World
  | test _ => world
  | act effect => stateAfter (effect.run world)

namespace Statement

def effect? : Statement → Option Effect
  | declare names size type line => some (.declare names size type line)
  | assign target e => some (.assign target e)
  | read targets line => some (.read targets line)
  | write items line => some (.write items line)
  | _ => none

/-- The operations that executing a statement performs, in their order. -/
def operations (world : World) : Statement → List Operation
  | ifThen condition branch _ => .test condition ::
    match condition.eval world.environment with
    | .ok value => if value.holds then branch.operations world else []
    | .error _ => []
  | ifThenElse condition branch other _ => .test condition ::
    match condition.eval world.environment with
    | .ok value => if value.holds then branch.operations world else other.operations world
    | .error _ => []
  | s => (s.effect?.map Operation.act).toList

/-- What executing a statement comes to, with the operations that it performs. -/
inductive Execution (world : World) :
    Statement → List Operation → EStateM.Result RuntimeError World Flow → Prop
  | block (body : List Statement) (line : Nat) :
      Execution world (.block body line) [] (.ok (.enter ⟨body, 0, false⟩) world)
  | loop (body : List Statement) (line : Nat) :
      Execution world (.loop body line) [] (.ok (.enter ⟨body, 0, true⟩) world)
  | goto (name : String) (line : Nat) :
      Execution world (.goto name line) [] (.ok (.jump name line) world)
  | label (name : String) (line : Nat) :
      Execution world (.label name line) [] (.ok .next world)
  | empty (line : Nat) : Execution world (.empty line) [] (.ok .next world)
  | done {s : Statement} {effect : Effect} {after : World} (acts : s.effect? = some effect)
      (ran : effect.run world = .ok () after) :
      Execution world s [.act effect] (.ok .next after)
  | failed {s : Statement} {effect : Effect} {e : RuntimeError} {after : World}
      (acts : s.effect? = some effect) (ran : effect.run world = .error e after) :
      Execution world s [.act effect] (.error e after)
  | untested {condition : Expr} {branch : Statement} {line : Nat} {e : RuntimeError}
      (tested : condition.eval world.environment = .error e) :
      Execution world (.ifThen condition branch line) [.test condition] (.error e world)
  | skipped {condition : Expr} {branch : Statement} {line : Nat} {value : Value}
      (tested : condition.eval world.environment = .ok value) (fails : value.holds = false) :
      Execution world (.ifThen condition branch line) [.test condition] (.ok .next world)
  | chosen {condition : Expr} {branch : Statement} {line : Nat} {value : Value}
      {operations : List Operation} {result : EStateM.Result RuntimeError World Flow}
      (tested : condition.eval world.environment = .ok value) (holds : value.holds = true)
      (inner : Execution world branch operations result) :
      Execution world (.ifThen condition branch line) (.test condition :: operations) result
  | undecided {condition : Expr} {branch other : Statement} {line : Nat} {e : RuntimeError}
      (tested : condition.eval world.environment = .error e) :
      Execution world (.ifThenElse condition branch other line) [.test condition] (.error e world)
  | branch {condition : Expr} {branch other : Statement} {line : Nat} {value : Value}
      {operations : List Operation} {result : EStateM.Result RuntimeError World Flow}
      (tested : condition.eval world.environment = .ok value) (holds : value.holds = true)
      (inner : Execution world branch operations result) :
      Execution world (.ifThenElse condition branch other line) (.test condition :: operations)
        result
  | other {condition : Expr} {branch other : Statement} {line : Nat} {value : Value}
      {operations : List Operation} {result : EStateM.Result RuntimeError World Flow}
      (tested : condition.eval world.environment = .ok value) (fails : value.holds = false)
      (inner : Execution world other operations result) :
      Execution world (.ifThenElse condition branch other line) (.test condition :: operations)
        result

theorem execute_of_effect? {s : Statement} {effect : Effect} (acts : s.effect? = some effect) :
    s.execute = (do effect.run; return .next) := by
  cases s <;> cases acts <;> simp only [execute, Effect.run, bind_assoc]

/-- The condition of an `if` is evaluated first, and nothing else if that fails. -/
theorem evaluate_bind {α : Type} (condition : Expr) (next : Value → Action α) (world : World) :
    (Action.evaluate condition >>= next) world =
      match condition.eval world.environment with
      | .ok value => next value world
      | .error e => .error e world := by
  show (Action.ofResult (condition.eval world.environment) >>= next) world = _
  cases condition.eval world.environment <;> rfl

theorem execution_of_effect? {world : World} {s : Statement} {effect : Effect}
    (acts : s.effect? = some effect) (performs : s.operations world = [.act effect]) :
    Execution world s (s.operations world) (s.execute world) := by
  rw [performs, execute_of_effect? acts]
  cases ran : effect.run world with
  | ok _ after => simpa only [bind, EStateM.bind, ran] using .done acts ran
  | error e after => simpa only [bind, EStateM.bind, ran] using .failed acts ran

theorem execution (world : World) (s : Statement) :
    Execution world s (s.operations world) (s.execute world) := by
  induction s with
  | block body line => exact .block body line
  | loop body line => exact .loop body line
  | ifThen condition branch line ih =>
    rw [execute, operations, evaluate_bind]
    cases tested : condition.eval world.environment with
    | error e => exact .untested tested
    | ok value =>
      cases holds : value.holds with
      | true => simpa [holds] using .chosen tested holds ih
      | false => simpa [holds] using .skipped tested holds
  | ifThenElse condition branch other line ihBranch ihOther =>
    rw [execute, operations, evaluate_bind]
    cases tested : condition.eval world.environment with
    | error e => exact .undecided tested
    | ok value =>
      cases holds : value.holds with
      | true => simpa [holds] using .branch tested holds ihBranch
      | false => simpa [holds] using .other tested holds ihOther
  | declare names size type line => exact execution_of_effect? rfl rfl
  | assign target e => exact execution_of_effect? rfl rfl
  | read targets line => exact execution_of_effect? rfl rfl
  | write items line => exact execution_of_effect? rfl rfl
  | goto name line => exact .goto name line
  | label name line => exact .label name line
  | empty line => exact .empty line

/-- The operations of a statement are all that it does to the world. -/
theorem stateAfter_execute (world : World) (s : Statement) :
    stateAfter (s.execute world) = (s.operations world).foldl Operation.perform world := by
  have performed := s.execution world
  generalize s.execute world = result, s.operations world = operations at performed
  induction performed with
  | block | loop | goto | label | empty | untested | skipped | undecided => rfl
  | done acts ran | failed acts ran =>
    simp only [List.foldl_cons, List.foldl_nil, Operation.perform, ran]
    rfl
  | chosen _ _ _ ih | branch _ _ _ ih | other _ _ _ ih => exact ih

end Statement

end GotoLang
