import GotoLang.Action

set_option autoImplicit false

namespace GotoLang

/-- The result is one of these values or one of these errors. -/
def Yields {ε α : Type} (values : α → Prop) (errors : ε → Prop) : Except ε α → Prop
  | .ok a => values a
  | .error e => errors e

namespace Yields

variable {ε α β : Type} {values : α → Prop} {later : β → Prop} {errors : ε → Prop}

theorem bind {result : Except ε α} {next : α → Except ε β} (first : Yields values errors result)
    (rest : ∀ a, values a → Yields later errors (next a)) :
    Yields later errors (result >>= next) := by
  cases result with
  | ok a => exact rest a first
  | error e => exact first

theorem mono {more : α → Prop} {others : ε → Prop} {result : Except ε α}
    (yields : Yields values errors result) (weaker : ∀ a, values a → more a)
    (milder : ∀ e, errors e → others e) : Yields more others result := by
  cases result with
  | ok a => exact weaker a yields
  | error e => exact milder e yields

theorem map {change : α → β} {others : ε → Prop} {result : Except ε α}
    (yields : Yields values errors result) (changed : ∀ a, values a → later (change a))
    (milder : ∀ e, errors e → others e) : Yields later others (result.map change) := by
  cases result with
  | ok a => exact changed a yields
  | error e => exact milder e yields

theorem onLine {faults : RuntimeFault → Prop} {result : Except RuntimeFault α}
    (yields : Yields values faults result) (line : Nat) :
    Yields values (fun e => faults e.fault) (onLine line result) := by
  cases result with
  | ok a => exact yields
  | error fault => exact yields

end Yields

namespace RuntimeFault

/-- The faults that operations on values can have. -/
def IsOperation : RuntimeFault → Prop
  | type (.notVector _ _) => False
  | type _ | divisionByZero | moduloType | overflow => True
  | _ => False

/-- The faults that computing with values and variables can have. -/
def IsEvaluation : RuntimeFault → Prop
  | unknownVariable _ | type _ | divisionByZero | moduloType | overflow
  | indexOutOfBounds _ _ _ => True
  | _ => False

theorem IsOperation.isEvaluation {fault : RuntimeFault} (operation : fault.IsOperation) :
    fault.IsEvaluation := by
  cases fault <;> first | exact trivial | exact operation

end RuntimeFault

abbrev Operates {α : Type} (result : Except RuntimeFault α) : Prop :=
  Yields (fun _ => True) RuntimeFault.IsOperation result

abbrev Computes {α : Type} (result : Except RuntimeFault α) : Prop :=
  Yields (fun _ => True) RuntimeFault.IsEvaluation result

theorem Operates.computes {α : Type} {result : Except RuntimeFault α}
    (operates : Operates result) : Computes result :=
  operates.mono (fun _ value => value) fun _ operation => operation.isEvaluation

theorem Value.operates_exactly (n : Int) : Operates (Value.exactly n) := by
  unfold Value.exactly
  cases int64? n <;> exact trivial

theorem Value.operates_negate (v : Value) : Operates v.negate := by
  cases v with
  | integer n => exact Value.operates_exactly _
  | real | text | boolean | vector => exact trivial

theorem Value.operates_toReal (v : Value) : Operates v.toReal := by
  cases v <;> exact trivial

theorem Value.operates_toInteger (v : Value) : Operates v.toInteger := by
  cases v <;> exact trivial

namespace BinaryOperator

theorem operates_reals (op : BinaryOperator) (left right : Value) :
    Operates (reals op left right) := by
  unfold reals
  split
  · exact left.operates_toReal.bind fun _ _ => right.operates_toReal.bind fun _ _ => trivial
  · exact trivial

theorem operates_arithmetic (op : BinaryOperator) (exact : Int → Int → Int)
    (rounded : Binary64 → Binary64 → Binary64) (left right : Value) :
    Operates (arithmetic op exact rounded left right) := by
  unfold arithmetic
  split
  · exact Value.operates_exactly _
  · exact (operates_reals op left right).bind fun _ _ => trivial

theorem operates_divide (left right : Value) : Operates (divide left right) := by
  unfold divide
  apply (operates_reals .div left right).bind
  rintro ⟨_, divisor⟩ _
  dsimp only
  split
  · exact trivial
  · exact operates_arithmetic _ _ _ left right

theorem operates_modulo (left right : Value) : Operates (modulo left right) := by
  unfold modulo
  split
  · split
    · exact trivial
    · split
      · exact Value.operates_exactly _
      · exact trivial
  · split <;> exact trivial

theorem operates_comparison (op : BinaryOperator) (holds : Ordering → Bool) (left right : Value) :
    Operates (comparison op holds left right) := by
  have ordered : Operates (order op left right) := by
    unfold order
    split
    · exact trivial
    · exact (operates_reals op left right).bind fun _ _ => trivial
  exact ordered.bind fun _ _ => trivial

theorem operates_apply (op : BinaryOperator) (left right : Value) :
    Operates (op.apply left right) := by
  cases op with
  | add | sub | mul => exact operates_arithmetic _ _ _ left right
  | div => exact operates_divide left right
  | mod => exact operates_modulo left right
  | equal | notEqual => exact trivial
  | less | lessEqual | greater | greaterEqual => exact operates_comparison _ _ left right

end BinaryOperator

namespace Environment

theorem computes_get (env : Environment) (name : String) : Computes (env.get name) := by
  unfold get
  split <;> exact trivial

theorem computes_assign (env : Environment) (name : String) (value : Value) :
    Computes (env.assign name value) := by
  unfold assign
  split <;> exact trivial

theorem computes_elements (env : Environment) (name : String) : Computes (env.elements name) := by
  apply Yields.bind (env.computes_get name)
  intro value _
  cases value <;> exact trivial

theorem computes_position (name : String) (length : Nat) (index : Value) :
    Computes (position name length index) := by
  apply Yields.bind index.operates_toInteger.computes
  intro place _
  split <;> exact trivial

theorem computes_element (env : Environment) (name : String) (index : Value) :
    Computes (env.element name index) := by
  apply Yields.bind (env.computes_elements name)
  intro elements _
  exact (computes_position name elements.length index).bind fun _ _ => trivial

theorem computes_assignElement (env : Environment) (name : String) (index value : Value) :
    Computes (env.assignElement name index value) := by
  apply Yields.bind (env.computes_elements name)
  intro elements _
  exact (computes_position name elements.length index).bind fun _ _ => trivial

end Environment

/-- An expression has a value or a fault of evaluation. -/
theorem Expr.computes_eval (env : Environment) (expression : Expr) :
    Yields (fun _ => True) (fun e => e.fault.IsEvaluation) (expression.eval env) := by
  induction expression with
  | integer | real => exact trivial
  | var name line => exact (env.computes_get name).onLine line
  | element name index line ih =>
    apply Yields.bind ih
    intro place _
    exact (env.computes_element name place).onLine line
  | negate operand line ih =>
    apply Yields.bind ih
    intro value _
    exact value.operates_negate.computes.onLine line
  | binary op left right line ihLeft ihRight =>
    apply Yields.bind ihLeft
    intro a _
    apply Yields.bind ihRight
    intro b _
    exact (op.operates_apply a b).computes.onLine line

/-- A value is stored, or there is a fault of evaluation. -/
theorem Environment.computes_store (env : Environment) (target : Target) (value : Value) :
    Yields (fun _ => True) (fun e => e.fault.IsEvaluation) (env.store target value) := by
  unfold store
  split
  · exact (env.computes_assign target.name value).onLine target.line
  · rename_i index _
    apply Yields.bind (index.computes_eval env)
    intro place _
    exact (env.computes_assignElement target.name place value).onLine target.line

/-- A vector is not made only because of its size. -/
theorem ElementType.vector_yields (type : ElementType) (memory : Nat → Bool) (length : Value) :
    Yields (fun _ => True) (fun fault => ∃ size, fault = .size size)
      (type.vector memory length) := by
  unfold vector
  split
  · split
    · exact ⟨_, rfl⟩
    · split
      · exact trivial
      · exact ⟨_, rfl⟩
  · exact ⟨_, rfl⟩

end GotoLang
