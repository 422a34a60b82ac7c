import GotoLang.Engine
import GotoLang.Proofs.EvaluationFault
import GotoLang.Proofs.StatementTree
import Mathlib.Logic.Embedding.Basic

set_option autoImplicit false

namespace GotoLang

/-- Other names for labels and, apart from them, for variables. -/
structure Renaming where
  label : String ↪ String
  var : String ↪ String

def Expr.rename (r : Renaming) : Expr → Expr
  | integer n line => .integer n line
  | real value line => .real value line
  | var name line => .var (r.var name) line
  | element name index line => .element (r.var name) (index.rename r) line
  | negate operand line => .negate (operand.rename r) line
  | binary op left right line => .binary op (left.rename r) (right.rename r) line

def Target.rename (r : Renaming) (target : Target) : Target where
  name := r.var target.name
  index := target.index.map (Expr.rename r)
  line := target.line

def WriteItem.rename (r : Renaming) : WriteItem → WriteItem
  | expr e => .expr (e.rename r)
  | layout l => .layout l

mutual

def Statement.rename (r : Renaming) : Statement → Statement
  | .block body line => .block (renameAll r body) line
  | .loop body line => .loop (renameAll r body) line
  | .ifThen condition branch line => .ifThen (condition.rename r) (branch.rename r) line
  | .ifThenElse condition branch other line =>
    .ifThenElse (condition.rename r) (branch.rename r) (other.rename r) line
  | .declare names size type line => .declare (names.map r.var) (size.map (Expr.rename r)) type line
  | .assign target value => .assign (target.rename r) (value.rename r)
  | .read targets line => .read (targets.map (Target.rename r)) line
  | .write items line => .write (items.map (WriteItem.rename r)) line
  | .goto name line => .goto (r.label name) line
  | .label name line => .label (r.label name) line
  | .empty line => .empty line

def renameAll (r : Renaming) : List Statement → List Statement
  | [] => []
  | s :: rest => s.rename r :: renameAll r rest

end

def Program.rename (r : Renaming) (p : Program) : Program where
  body := renameAll r p.body
  line := p.line

theorem renameAll_eq_map (r : Renaming) (body : List Statement) :
    renameAll r body = body.map (Statement.rename r) := by
  induction body with
  | nil => rfl
  | cons s rest ih => rw [renameAll, ih, List.map_cons]

theorem Statement.line_rename (r : Renaming) (s : Statement) : (s.rename r).line = s.line := by
  cases s <;> rfl

namespace RuntimeFault

def rename (r : Renaming) : RuntimeFault → RuntimeFault
  | duplicateLabel name firstLine => .duplicateLabel (r.label name) firstLine
  | undefinedLabel name => .undefinedLabel (r.label name)
  | unknownVariable name => .unknownVariable (r.var name)
  | type (.notVector name found) => .type (.notVector (r.var name) found)
  | indexOutOfBounds name index length => .indexOutOfBounds (r.var name) index length
  | inputExhausted name => .inputExhausted (r.var name)
  | fault => fault

theorem IsOperation.rename {fault : RuntimeFault} (operation : fault.IsOperation) (r : Renaming) :
    fault.rename r = fault := by
  cases fault with
  | type fault =>
    cases fault with
    | notVector => exact operation.elim
    | notNumber | notInteger | operand | operands => rfl
  | divisionByZero | moduloType | overflow => rfl
  | _ => exact operation.elim

end RuntimeFault

def RuntimeError.rename (r : Renaming) (e : RuntimeError) : RuntimeError where
  fault := e.fault.rename r
  line := e.line

section Results

variable {ε α β γ : Type}

theorem map_bind (f : β → γ) (result : Except ε α) (next : α → Except ε β) :
    (result >>= next).map f = result >>= fun a => (next a).map f := by
  cases result <;> rfl

theorem mapError_bind (f : ε → ε) (result : Except ε α) (next : α → Except ε β) :
    (result >>= next).mapError f = result.mapError f >>= fun a => (next a).mapError f := by
  cases result <;> rfl

theorem onLine_mapError (r : Renaming) (line : Nat) (result : Except RuntimeFault α) :
    onLine line (result.mapError (RuntimeFault.rename r)) =
      (onLine line result).mapError (RuntimeError.rename r) := by
  cases result <;> rfl

/-- Operations on values name nothing in their errors. -/
theorem Operates.mapError {result : Except RuntimeFault α} (operates : Operates result)
    (r : Renaming) : result.mapError (RuntimeFault.rename r) = result := by
  cases result with
  | ok a => rfl
  | error fault => exact congrArg Except.error (RuntimeFault.IsOperation.rename operates r)

theorem Operates.mapError_onLine {result : Except RuntimeFault α} (operates : Operates result)
    (r : Renaming) (line : Nat) :
    (onLine line result).mapError (RuntimeError.rename r) = onLine line result := by
  rw [← onLine_mapError, operates.mapError r]

end Results

def Environment.rename (r : Renaming) (env : Environment) : Environment where
  bindings := env.bindings.map (Prod.map r.var id)

namespace Environment

variable (r : Renaming)

theorem lookup_rename (pairs : List (String × Value)) (name : String) :
    (pairs.map (Prod.map r.var id)).lookup (r.var name) = pairs.lookup name := by
  induction pairs with
  | nil => rfl
  | cons pair rest ih =>
    obtain ⟨first, value⟩ := pair
    simp only [List.map_cons, Prod.map, List.lookup_cons, r.var.injective.beq_eq, ih, id]

theorem put_rename (pairs : List (String × Value)) (name : String) (value : Value) :
    put (r.var name) value (pairs.map (Prod.map r.var id)) =
      (put name value pairs).map (Prod.map r.var id) := by
  induction pairs with
  | nil => rfl
  | cons pair rest ih =>
    obtain ⟨first, old⟩ := pair
    simp only [List.map_cons, Prod.map, put, r.var.injective.beq_eq, id, ih]
    by_cases here : (name == first) = true
    · simp only [if_pos here, List.map_cons, Prod.map, id]
    · simp only [if_neg here, List.map_cons, Prod.map, id]

variable (env : Environment) (name : String) (value : Value)

@[simp] theorem find?_rename : (env.rename r).find? (r.var name) = env.find? name :=
  lookup_rename r env.bindings name

@[simp] theorem declare_rename :
    (env.rename r).declare (r.var name) value = (env.declare name value).rename r :=
  congrArg mk (put_rename r env.bindings name value)

theorem get_rename :
    (env.rename r).get (r.var name) = (env.get name).mapError (RuntimeFault.rename r) := by
  rw [get, get, find?_rename]
  cases env.find? name <;> rfl

theorem assign_rename :
    (env.rename r).assign (r.var name) value =
      ((env.assign name value).map (rename r)).mapError (RuntimeFault.rename r) := by
  rw [assign, assign, isDeclared, isDeclared, find?_rename, declare_rename]
  cases (env.find? name).isSome <;> rfl

theorem elements_rename :
    (env.rename r).elements (r.var name) =
      (env.elements name).mapError (RuntimeFault.rename r) := by
  rw [elements, elements, get_rename]
  cases env.get name with
  | error fault => rfl
  | ok value => cases value <;> rfl

theorem position_rename (length : Nat) (index : Value) :
    position (r.var name) length index =
      (position name length index).mapError (RuntimeFault.rename r) := by
  rw [position, position, mapError_bind, index.operates_toInteger.mapError r]
  apply congrArg (index.toInteger >>= ·)
  funext place
  split <;> rfl

theorem element_rename (index : Value) :
    (env.rename r).element (r.var name) index =
      (env.element name index).mapError (RuntimeFault.rename r) := by
  simp only [element, elements_rename, position_rename, mapError_bind]
  rfl

theorem assignElement_rename (index : Value) :
    (env.rename r).assignElement (r.var name) index value =
      ((env.assignElement name index value).map (rename r)).mapError (RuntimeFault.rename r) := by
  simp only [assignElement, elements_rename, position_rename, declare_rename, map_bind,
    mapError_bind]
  rfl

end Environment

/-- An expression has the same value, or the same error but for the names. -/
theorem Expr.eval_rename (r : Renaming) (env : Environment) (e : Expr) :
    (e.rename r).eval (env.rename r) = (e.eval env).mapError (RuntimeError.rename r) := by
  induction e with
  | integer | real => rfl
  | var name line => rw [rename, eval, eval, env.get_rename, onLine_mapError]
  | element name index line ih =>
    simp only [rename, eval, ih, mapError_bind, env.element_rename, onLine_mapError]
  | negate operand line ih =>
    -- Operators see the values only, so their errors stay as they are.
    simp only [rename, eval, ih, mapError_bind, (Value.operates_negate _).mapError_onLine]
  | binary op left right line ihLeft ihRight =>
    simp only [rename, eval, ihLeft, ihRight, mapError_bind,
      (op.operates_apply _ _).mapError_onLine]

/-- A value is stored into the same place. -/
theorem Environment.store_rename (r : Renaming) (env : Environment) (target : Target)
    (value : Value) :
    (env.rename r).store (target.rename r) value =
      ((env.store target value).map (rename r)).mapError (RuntimeError.rename r) := by
  obtain ⟨name, index, line⟩ := target
  cases index with
  | none =>
    simp only [store, Target.rename, Option.map_none, assign_rename, onLine_mapError]
    cases env.assign name value <;> rfl
  | some index =>
    simp only [store, Target.rename, Option.map_some, index.eval_rename, assignElement_rename,
      onLine_mapError, map_bind, mapError_bind]
    apply congrArg (_ >>= ·)
    funext place
    cases env.assignElement name place value <;> rfl

def Frame.rename (r : Renaming) (frame : Frame) : Frame where
  statements := renameAll r frame.statements
  cursor := frame.cursor
  isLoop := frame.isLoop

def Position.rename (r : Renaming) (position : Position) : Position :=
  position.map (Frame.rename r)

def Marker.rename (r : Renaming) (marker : Marker) : Marker where
  name := r.label marker.name
  line := marker.line
  position := marker.position.rename r

def Labels.rename (r : Renaming) (labels : Labels) : Labels where
  markers := labels.markers.map (Marker.rename r)

theorem Frame.current?_rename (r : Renaming) (frame : Frame) :
    (frame.rename r).current? = frame.current?.map (Statement.rename r) := by
  rw [current?, current?, rename, renameAll_eq_map, List.getElem?_map]

theorem markersFrom_rename {r : Renaming} {body : List Statement}
    (each : ∀ s ∈ body, ∀ here : Position,
      (s.rename r).markers (here.rename r) = (s.markers here).map (Marker.rename r))
    (outer : Position) (frame : Frame) :
    markersFrom (outer.rename r) (frame.rename r) (renameAll r body) =
      (markersFrom outer frame body).map (Marker.rename r) := by
  induction body generalizing frame with
  | nil => rfl
  | cons s rest ih =>
    have ⟨first, others⟩ := List.forall_mem_cons.1 each
    rw [renameAll, markersFrom, markersFrom, List.map_append, ← first, ← ih others]
    rfl

theorem Statement.markers_rename (r : Renaming) (s : Statement) (here : Position) :
    (s.rename r).markers (here.rename r) = (s.markers here).map (Marker.rename r) := by
  induction s generalizing here with
  | block body line ih => exact markersFrom_rename ih here ⟨body, 0, false⟩
  | loop body line ih => exact markersFrom_rename ih here ⟨body, 0, true⟩
  | ifThen condition branch line ih => exact ih here
  | ifThenElse condition branch other line ihBranch ihOther =>
    simp only [rename, markers, List.map_append, ihBranch, ihOther]
  | declare | assign | read | write | goto | label | empty => rfl

theorem Program.markers_rename (r : Renaming) (p : Program) :
    (p.rename r).markers = p.markers.map (Marker.rename r) :=
  markersFrom_rename (fun s _ => s.markers_rename r) [] p.root

theorem find?_name_rename (r : Renaming) (markers : List Marker) (name : String) :
    (markers.map (Marker.rename r)).find? (·.name == r.label name) =
      (markers.find? (·.name == name)).map (Marker.rename r) := by
  have same : (fun marker : Marker => marker.name == r.label name) ∘ Marker.rename r =
      fun marker => marker.name == name :=
    funext fun _ => r.label.injective.beq_eq
  rw [List.find?_map, same]

/-- A label is found under its other name, where it was found before. -/
theorem Labels.find?_rename (r : Renaming) (labels : Labels) (name : String) :
    (labels.rename r).find? (r.label name) = (labels.find? name).map (Marker.rename r) :=
  find?_name_rename r labels.markers name

theorem duplicate?_rename (r : Renaming) (earlier rest : List Marker) :
    duplicate? (earlier.map (Marker.rename r)) (rest.map (Marker.rename r)) =
      (duplicate? earlier rest).map (Prod.map (Marker.rename r) (Marker.rename r)) := by
  induction rest generalizing earlier with
  | nil => rfl
  | cons marker rest ih =>
    have found : (earlier.map (Marker.rename r)).find? (·.name == (marker.rename r).name) = _ :=
      find?_name_rename r earlier marker.name
    rw [List.map_cons, duplicate?, duplicate?, found]
    cases earlier.find? (·.name == marker.name) with
    | some first => rfl
    | none => exact ih (marker :: earlier)

/-- A name is there twice exactly if its other name is. -/
theorem Labels.ofProgram_rename (r : Renaming) (p : Program) :
    ofProgram (p.rename r) =
      ((ofProgram p).map (rename r)).mapError (RuntimeError.rename r) := by
  have clash := duplicate?_rename r [] p.markers
  rw [List.map_nil, ← p.markers_rename] at clash
  rw [ofProgram, ofProgram, clash, p.markers_rename]
  cases duplicate? [] p.markers <;> rfl

end GotoLang
