import GotoLang.Value.Operator

set_option autoImplicit false

namespace GotoLang

/-- The variables of a program and their values. -/
structure Environment where
  bindings : List (String × Value)

namespace Environment

def empty : Environment := ⟨[]⟩

def find? (env : Environment) (name : String) : Option Value :=
  env.bindings.lookup name

def isDeclared (env : Environment) (name : String) : Bool :=
  (env.find? name).isSome

def size (env : Environment) : Nat :=
  env.bindings.length

/-- The pairs with the value of one name replaced, or with a pair added behind them. -/
def put (name : String) (value : Value) : List (String × Value) → List (String × Value)
  | [] => [(name, value)]
  | (other, old) :: rest =>
    if name == other then (other, value) :: rest else (other, old) :: put name value rest

theorem lookup_put (name other : String) (value : Value) (pairs : List (String × Value)) :
    (put name value pairs).lookup other =
      if other = name then some value else pairs.lookup other := by
  induction pairs with
  | nil =>
    by_cases h : other = name
    · simp [put, h]
    · simp [put, List.lookup_cons, beq_eq_false_iff_ne.2 h, h]
  | cons pair rest ih =>
    obtain ⟨first, old⟩ := pair
    simp only [put, beq_iff_eq]
    by_cases here : name = first
    · subst here
      by_cases h : other = name
      · simp [h]
      · simp [List.lookup_cons, beq_eq_false_iff_ne.2 h, h]
    · by_cases h : other = first
      · subst h
        simp [here, Ne.symm here]
      · simp only [here, ↓reduceIte, List.lookup_cons, beq_eq_false_iff_ne.2 h, ih]

/-- Declares a variable with a value; an old value is replaced. -/
def declare (env : Environment) (name : String) (value : Value) : Environment :=
  ⟨put name value env.bindings⟩

@[simp] theorem find?_empty (name : String) : empty.find? name = none := rfl

@[simp] theorem find?_declare (env : Environment) (name other : String) (value : Value) :
    (env.declare name value).find? other = if other = name then some value else env.find? other :=
  lookup_put name other value env.bindings

def get (env : Environment) (name : String) : Except RuntimeFault Value :=
  match env.find? name with
  | some value => .ok value
  | none => .error (.unknownVariable name)

def assign (env : Environment) (name : String) (value : Value) :
    Except RuntimeFault Environment :=
  if env.isDeclared name then .ok (env.declare name value) else .error (.unknownVariable name)

def elements (env : Environment) (name : String) : Except RuntimeFault (List Value) := do
  match ← env.get name with
  | .vector elements => return elements
  | other => throw (.type (.notVector name other.kind))

/-- The place in a vector of the given length that an index denotes. -/
def position (name : String) (length : Nat) (index : Value) :
    Except RuntimeFault (Fin length) := do
  let index ← index.toInteger
  if inside : 0 ≤ index.toInt ∧ index.toInt.toNat < length then
    return ⟨index.toInt.toNat, inside.2⟩
  else throw (.indexOutOfBounds name index length)

def element (env : Environment) (name : String) (index : Value) : Except RuntimeFault Value := do
  let elements ← env.elements name
  let place ← position name elements.length index
  return elements.get place

def assignElement (env : Environment) (name : String) (index value : Value) :
    Except RuntimeFault Environment := do
  let elements ← env.elements name
  let place ← position name elements.length index
  return env.declare name (.vector (elements.set place value))

end Environment

/-- The value of an expression. Operands are evaluated from left to right, and the first error is
the result. -/
def Expr.eval (env : Environment) : Expr → Except RuntimeError Value
  | integer n _ => .ok (.integer n)
  | real r _ => .ok (.real r)
  | var name line => onLine line (env.get name)
  | element name index line => do
    let index ← index.eval env
    onLine line (env.element name index)
  | negate operand line => do
    let value ← operand.eval env
    onLine line value.negate
  | binary op left right line => do
    let left ← left.eval env
    let right ← right.eval env
    onLine line (op.apply left right)

/-- Stores a value into a target. The index is evaluated before the variable is looked at. -/
def Environment.store (env : Environment) (target : Target) (value : Value) :
    Except RuntimeError Environment :=
  match target.index with
  | none => onLine target.line (env.assign target.name value)
  | some index => do
    let index ← index.eval env
    onLine target.line (env.assignElement target.name index value)

end GotoLang
