import GotoLang.Proofs.ActionInvariant
import GotoLang.Proofs.EnginePath

set_option autoImplicit false

namespace GotoLang

/-- An expression of integers, plain variables and arithmetic operators. -/
def Expr.isArithmetic : Expr → Bool
  | integer _ _ | var _ _ => true
  | real _ _ | element _ _ _ => false
  | negate operand _ => operand.isArithmetic
  | binary op left right _ => op.level != .relational && left.isArithmetic && right.isArithmetic

/-- One comparison of two arithmetic expressions. -/
def Expr.isComparison : Expr → Bool
  | binary op left right _ => op.level == .relational && left.isArithmetic && right.isArithmetic
  | _ => false

/-- An arithmetic expression or one comparison. -/
def Expr.isTest (e : Expr) : Bool :=
  e.isArithmetic || e.isComparison

def WriteItem.isIntegral : WriteItem → Bool
  | expr e => e.isTest
  | layout _ => true

/-- A statement that has to do with integers only, whatever is inside it. -/
def Statement.isIntegral : Statement → Bool
  | declare _ size type _ => size.isNone && type == .integer
  | assign target value => target.index.isNone && value.isArithmetic
  | ifThen condition _ _ | ifThenElse condition _ _ _ => condition.isTest
  | write items _ => items.all WriteItem.isIntegral
  | read _ _ => false
  | block _ _ | loop _ _ | goto _ _ | label _ _ | empty _ => true

/-- The faults that are left when no kind of value is out of place. -/
def RuntimeFault.isIntegral : RuntimeFault → Bool
  | unknownVariable _ | divisionByZero | overflow | undefinedLabel _ | console _ => true
  | type _ | moduloType | indexOutOfBounds _ _ _ | size _ | inputExhausted _
  | duplicateLabel _ _ => false

def Value.IsInteger (value : Value) : Prop :=
  ∃ n, value = .integer n

def Environment.Integral (env : Environment) : Prop :=
  ∀ name value, env.find? name = some value → value.IsInteger

abbrev YieldsInteger (result : Except RuntimeFault Value) : Prop :=
  Yields Value.IsInteger (·.isIntegral = true) result

theorem Value.exactly_integral (n : Int) : YieldsInteger (Value.exactly n) := by
  unfold Value.exactly
  cases int64? n with
  | some v => exact ⟨v, rfl⟩
  | none => rfl

namespace BinaryOperator

theorem modulo_integral (a b : Int64) : YieldsInteger (modulo (.integer a) (.integer b)) := by
  by_cases zero : b = 0
  · simp only [modulo, if_pos zero]
    rfl
  · simp only [modulo, if_neg zero]
    cases int64? (a.toInt.tdiv b.toInt) with
    | some quotient => exact Value.exactly_integral _
    | none => rfl

theorem divide_integral (a b : Int64) : YieldsInteger (divide (.integer a) (.integer b)) := by
  rw [divide_of_numbers rfl rfl]
  cases (Binary64.ofInt b.toInt).isZero with
  | true => rfl
  | false => exact Value.exactly_integral _

/-- An arithmetic operator makes an integer of integers. -/
theorem apply_arithmetic {op : BinaryOperator} (arithmetic : op.level ≠ .relational)
    (a b : Int64) : YieldsInteger (op.apply (.integer a) (.integer b)) := by
  cases op with
  | add | sub | mul => exact Value.exactly_integral _
  | div => exact divide_integral a b
  | mod => exact modulo_integral a b
  | equal | notEqual | less | lessEqual | greater | greaterEqual => exact absurd rfl arithmetic

/-- A comparison of integers has a value. -/
theorem apply_comparison {op : BinaryOperator} (relational : op.level = .relational)
    (a b : Int64) : ∃ value, op.apply (.integer a) (.integer b) = .ok value := by
  cases op with
  | add | sub | mul | div | mod => cases relational
  | equal | notEqual | less | lessEqual | greater | greaterEqual => exact ⟨_, rfl⟩

end BinaryOperator

namespace Environment

variable {env : Environment}

theorem empty_integral : empty.Integral := by
  intro name value found
  cases found

theorem Integral.declare (integral : env.Integral) (name : String) {value : Value}
    (isInteger : value.IsInteger) : (env.declare name value).Integral := by
  intro other held found
  rw [find?_declare] at found
  by_cases same : other = name
  · rw [if_pos same] at found
    exact Option.some.inj found ▸ isInteger
  · rw [if_neg same] at found
    exact integral other held found

theorem Integral.get (integral : env.Integral) (name : String) : YieldsInteger (env.get name) := by
  unfold Environment.get
  cases found : env.find? name with
  | some value => exact integral name value found
  | none => rfl

theorem Integral.assign (integral : env.Integral) (name : String) {value : Value}
    (isInteger : value.IsInteger) :
    Yields Integral (·.isIntegral = true) (env.assign name value) := by
  unfold Environment.assign
  by_cases declared : env.isDeclared name = true
  · rw [if_pos declared]
    exact integral.declare name isInteger
  · rw [if_neg declared]
    rfl

/-- An arithmetic expression over integers is an integer. -/
theorem Integral.eval (integral : env.Integral) {e : Expr} (arithmetic : e.isArithmetic = true) :
    Yields Value.IsInteger (·.fault.isIntegral = true) (e.eval env) := by
  induction e with
  | integer n line => exact ⟨n, rfl⟩
  | real r line => cases arithmetic
  | var name line => exact (integral.get name).onLine line
  | element name index line ih => cases arithmetic
  | negate operand line ih =>
    apply Yields.bind (ih arithmetic)
    intro value isInteger
    obtain ⟨n, rfl⟩ := isInteger
    exact (Value.exactly_integral _).onLine line
  | binary op left right line ihLeft ihRight =>
    obtain ⟨⟨level, leftArithmetic⟩, rightArithmetic⟩ :
        (op.level ≠ .relational ∧ left.isArithmetic = true) ∧ right.isArithmetic = true := by
      simpa [Expr.isArithmetic] using arithmetic
    apply Yields.bind (ihLeft leftArithmetic)
    intro value isInteger
    apply Yields.bind (ihRight rightArithmetic)
    intro other otherIsInteger
    obtain ⟨a, rfl⟩ := isInteger
    obtain ⟨b, rfl⟩ := otherIsInteger
    exact (BinaryOperator.apply_arithmetic level a b).onLine line

/-- A test over integers has a value, or a fault that is left. -/
theorem Integral.eval_test (integral : env.Integral) {e : Expr} (test : e.isTest = true) :
    Yields (fun _ => True) (·.fault.isIntegral = true) (e.eval env) := by
  rcases Bool.or_eq_true_iff.1 test with arithmetic | comparison
  · exact (integral.eval arithmetic).mono (fun _ _ => trivial) fun _ fault => fault
  · cases e with
    | binary op left right line =>
      obtain ⟨⟨level, leftArithmetic⟩, rightArithmetic⟩ :
          (op.level = .relational ∧ left.isArithmetic = true) ∧ right.isArithmetic = true := by
        simpa [Expr.isComparison] using comparison
      apply Yields.bind (integral.eval leftArithmetic)
      intro value isInteger
      apply Yields.bind (integral.eval rightArithmetic)
      intro other otherIsInteger
      obtain ⟨a, rfl⟩ := isInteger
      obtain ⟨b, rfl⟩ := otherIsInteger
      obtain ⟨truth, compared⟩ := BinaryOperator.apply_comparison level a b
      rw [compared]
      exact trivial
    | integer | real | var | element | negate => cases comparison

end Environment

/-- Variables that hold integers still do afterwards, and a fault is one that is left. -/
abbrev Action.StaysIntegral {α : Type} (values : α → Prop) (action : Action α) : Prop :=
  action.Keeps (·.environment.Integral) values (·.fault.isIntegral = true)

namespace Action.StaysIntegral

theorem evaluate {e : Expr} (arithmetic : e.isArithmetic = true) :
    StaysIntegral Value.IsInteger (Action.evaluate e) :=
  Keeps.evaluate fun _ integral => integral.eval arithmetic

theorem test {e : Expr} (test : e.isTest = true) :
    StaysIntegral (fun _ => True) (Action.evaluate e) :=
  Keeps.evaluate fun _ integral => integral.eval_test test

theorem declare {value : Value} (isInteger : value.IsInteger) (name : String) :
    StaysIntegral (fun _ => True) (Action.declare value name) :=
  fun _ integral => ⟨trivial, integral.declare name isInteger⟩

theorem store {target : Target} (plain : target.index = none) {value : Value}
    (isInteger : value.IsInteger) : StaysIntegral (fun _ => True) (Action.store target value) := by
  apply Keeps.store
  intro world integral
  simp only [Environment.store, plain]
  exact (integral.assign target.name isInteger).onLine target.line

theorem emit (line : Nat) (text : String) :
    StaysIntegral (fun _ => True) (Action.emit line text) := by
  apply Keeps.emit
  · exact fun _ _ integral => integral
  · rfl

theorem writeItem (line : Nat) {item : WriteItem} (fits : item.isIntegral = true) :
    StaysIntegral (fun _ => True) (Action.writeItem line item) := by
  apply Keeps.writeItem
  · exact fun _ _ integral => integral
  · rfl
  · intro e same world integral
    subst same
    exact integral.eval_test fits

end Action.StaysIntegral

namespace Statement

theorem staysIntegral_of_effect? {s : Statement} {effect : Effect}
    (acts : s.effect? = some effect)
    (stays : Action.StaysIntegral (fun _ => True) effect.run) :
    Action.StaysIntegral (fun _ => True) s.execute := by
  rw [execute_of_effect? acts]
  exact Action.Keeps.bind stays fun _ _ => .pure trivial

/-- Executing a statement of the fragment keeps integers integers. -/
theorem staysIntegral (s : Statement) (fits : s.Everywhere (·.isIntegral = true)) :
    Action.StaysIntegral (fun _ => True) s.execute := by
  induction s with
  | ifThen condition branch line ih =>
    have ⟨test, inside⟩ := Everywhere.ifThen.1 fits
    apply Action.Keeps.bind (Action.StaysIntegral.test test)
    intro value _
    by_cases holds : value.holds = true
    · simpa only [if_pos holds] using ih inside
    · simpa only [if_neg holds] using Action.Keeps.pure trivial
  | ifThenElse condition branch other line ihBranch ihOther =>
    have ⟨test, inBranch, inOther⟩ := Everywhere.ifThenElse.1 fits
    apply Action.Keeps.bind (Action.StaysIntegral.test test)
    intro value _
    by_cases holds : value.holds = true
    · simpa only [if_pos holds] using ihBranch inBranch
    · simpa only [if_neg holds] using ihOther inOther
  | declare names size type line =>
    obtain ⟨rfl, rfl⟩ : size = none ∧ type = .integer := by
      simpa [isIntegral] using fits.here
    apply staysIntegral_of_effect? rfl
    have zero : Value.IsInteger ElementType.integer.initial := ⟨0, rfl⟩
    apply Action.Keeps.bind (Action.Keeps.pure zero)
    intro value isInteger
    exact .forM fun name _ => Action.StaysIntegral.declare isInteger name
  | assign target e =>
    obtain ⟨plain, arithmetic⟩ : target.index = none ∧ e.isArithmetic = true := by
      simpa [isIntegral] using fits.here
    apply staysIntegral_of_effect? rfl
    apply Action.Keeps.bind (Action.StaysIntegral.evaluate arithmetic)
    intro value isInteger
    exact Action.StaysIntegral.store plain isInteger
  | read targets line =>
    -- A line of input may be a real or a text, so the fragment has no `read`.
    cases fits.here
  | write items line =>
    have each := List.all_eq_true.1 fits.here
    apply staysIntegral_of_effect? rfl
    apply Action.Keeps.bind (Action.Keeps.forM fun item member =>
      Action.StaysIntegral.writeItem line (each item member))
    intro _ _
    exact Action.StaysIntegral.emit line "\n"
  | block | loop | goto | label | empty => exact .pure trivial

end Statement

namespace Engine

/-- The engine stands in its program, and its variables hold integers. -/
structure Integral (p : Program) (engine : Engine) : Prop where
  onPath : engine.OnPath p
  integers : engine.world.environment.Integral

variable {p : Program} {engine : Engine} {outcome : Outcome Bool}

/-- The statement under the cursor is one of the fragment. -/
theorem Integral.stays (fits : ∀ s ∈ p.all, s.isIntegral = true) (integral : engine.Integral p)
    {frame : Frame} {outer : Position} {s : Statement} (stands : engine.position = frame :: outer)
    (here : frame.current? = some s) : Action.StaysIntegral (fun _ => True) s.execute := by
  have everywhere := Statement.Everywhere.sequence.1 fits
  have path := integral.onPath.isPath stands
  exact s.staysIntegral (path.everywhere everywhere rfl s (Frame.mem_of_current? here))

theorem Integral.move (fits : ∀ s ∈ p.all, s.isIntegral = true) (integral : engine.Integral p)
    (move : engine.Move outcome) : outcome.engine.Integral p := by
  refine ⟨integral.onPath.move move, ?_⟩
  cases move with
  | land | lose | rest | restart | close => exact integral.integers
  | execute frame outer s flow world free stands here executed =>
    have kept := integral.stays fits stands here engine.world integral.integers
    rw [executed] at kept
    cases flow <;> exact kept.2
  | fail frame outer s e world free stands here failed =>
    have kept := integral.stays fits stands here engine.world integral.integers
    rw [failed] at kept
    exact kept.2

theorem Integral.fault (fits : ∀ s ∈ p.all, s.isIntegral = true) (integral : engine.Integral p)
    {e : RuntimeError} {after : Engine} (move : engine.Move (.error e after)) :
    e.fault.isIntegral = true := by
  cases move with
  | lose jump pending missing => rfl
  | fail frame outer s _ world free stands here failed =>
    have kept := integral.stays fits stands here engine.world integral.integers
    rw [failed] at kept
    exact kept.1

theorem Integral.of_reachable (fits : ∀ s ∈ p.all, s.isIntegral = true) {input : List UInt8}
    {output : Sink} {prompts : Bool} {memory : Nat → Bool}
    (reached : Reachable (initial p input output prompts memory) engine) :
    engine.Integral p := by
  apply reached.invariant
  · exact ⟨initial_onPath p input output prompts memory, Environment.empty_integral⟩
  · intro engine outcome integral move
    exact integral.move fits move

/-- In every state that calls of `step` lead to, every variable of a program of the fragment holds
an integer, and a step fails only with a fault that has to do with no kind of value. -/
theorem integer_fragment_safe (p : Program) (fits : ∀ s ∈ p.all, s.isIntegral = true)
    (input : List UInt8) (output : Sink) (prompts : Bool) (memory : Nat → Bool)
    (first engine : Engine)
    (started : start p input output prompts memory = .ok first) (reached : Reachable first engine) :
    (∀ name value, engine.world.environment.find? name = some value → ∃ n, value = .integer n) ∧
      ∀ e after, engine.step = .error e after → e.fault.isIntegral = true := by
  obtain rfl := eq_initial_of_start started
  have integral := Integral.of_reachable fits reached
  refine ⟨integral.integers, ?_⟩
  intro e after failed
  have move := engine.step_move
  rw [failed] at move
  exact integral.fault fits move

theorem integer_fragment_safe_behind_jump :
    ∃ p first engine after,
      Program.ofSource "begin n: integer; goto a; n := 7; a: write 1 / n end" = .ok p ∧
      (∀ s ∈ p.all, s.isIntegral = true) ∧
      start p [] .unlimited false (fun _ => true) = .ok first ∧ Reachable first engine ∧
      engine.world.environment.find? "n" = some (.integer 0) ∧
      engine.step = .error ⟨.divisionByZero, 1⟩ after ∧
      RuntimeFault.divisionByZero.isIntegral = true ∧
      ∀ value, engine.world.environment.find? "n" = some value → ∃ n, value = .integer n := by
  let p : Program := ⟨[.declare ["n"] none .integer 1, .goto "a" 1,
    .assign ⟨"n", none, 1⟩ (.integer 7 1), .label "a" 1,
    .write [.expr (.binary .div (.integer 1 1) (.var "n" 1) 1)] 1], 1⟩
  have parsed : Program.ofSource "begin n: integer; goto a; n := 7; a: write 1 / n end" =
      .ok p := by
    with_unfolding_all rfl
  have fits : ∀ s ∈ p.all, s.isIntegral = true := by decide
  let first := initial p [] .unlimited false (fun _ => true)
  have started : start p [] .unlimited false (fun _ => true) = .ok first := rfl
  let engine := first.step.engine.step.engine.step.engine.step.engine
  have reached : Reachable first engine := .call (.call (.call (.call .start)))
  obtain ⟨after, failed⟩ : ∃ after, engine.step = .error ⟨.divisionByZero, 1⟩ after :=
    Outcome.error?_eq_some_iff.1 (by decide +kernel)
  obtain ⟨integers, faults⟩ :=
    integer_fragment_safe p fits [] .unlimited false (fun _ => true) first
    engine started reached
  exact ⟨p, first, engine, _, parsed, fits, started, reached, rfl, failed, faults _ _ failed,
    integers "n"⟩

end Engine

end GotoLang
