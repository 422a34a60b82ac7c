import GotoLang.Binary64.Decimal
import GotoLang.Program

set_option autoImplicit false

namespace GotoLang

/-- A layout: a line, a part with a label in front of it, or parts between two brackets. -/
inductive Outline where
  | leaf (text : String)
  | labelled (label : String) (part : Outline)
  | group (opening : String) (parts : List Outline) (closing : String)

namespace Outline

/-- A named part with labelled fields. -/
def record (name : String) (fields : List (String × Outline)) : Outline :=
  .group (name ++ " \x7b") (fields.map fun (label, part) => .labelled label part) "\x7d"

/-- A name applied to one part. -/
def wrap (name : String) (part : Outline) : Outline :=
  .group (name ++ "(") [part] ")"

def list (parts : List Outline) : Outline :=
  .group "[" parts "]"

def quoted (text : String) : Outline :=
  .leaf ("\"" ++ text ++ "\"")

def number (n : Nat) : Outline :=
  .leaf (toString n)

def optional : Option Outline → Outline
  | none => .leaf "None"
  | some part => wrap "Some" part

/-- Lines with a comma behind the last one. -/
def withComma : List String → List String
  | [] => []
  | [line] => [line ++ ","]
  | line :: rest => line :: withComma rest

/-- Lines with a label in front of the first one. -/
def withLabel (label : String) : List String → List String
  | [] => []
  | line :: rest => (label ++ ": " ++ line) :: rest

mutual

def lines : Outline → List String
  | .leaf text => [text]
  | .labelled label part => withLabel label part.lines
  | .group opening [] closing => [opening ++ closing]
  | .group opening (first :: rest) closing =>
    opening :: ((partLines (first :: rest)).map ("    " ++ ·) ++ [closing])

/-- The lines of the parts of a group, with commas. -/
def partLines : List Outline → List String
  | [] => []
  | part :: rest => withComma part.lines ++ partLines rest

end

def toText (outline : Outline) : String :=
  "\n".intercalate outline.lines

end Outline

open Outline

def BinaryOperator.title : BinaryOperator → String
  | add => "Add"
  | sub => "Sub"
  | mul => "Mul"
  | div => "Div"
  | mod => "Mod"
  | equal => "Equal"
  | notEqual => "NotEqual"
  | less => "Less"
  | lessEqual => "LessEqual"
  | greater => "Greater"
  | greaterEqual => "GreaterEqual"

def ElementType.title : ElementType → String
  | integer => "Integer"
  | real => "Real"

def Layout.title : Layout → String
  | space => "Space"
  | tab => "Tab"
  | skip => "Skip"

def Expr.outline : Expr → Outline
  | integer n line =>
    record "Literal" [("value", wrap "Integer" (.leaf (toString n.toInt))), ("line", number line)]
  | real r line =>
    record "Literal" [("value", wrap "Real" (.leaf r.toText)), ("line", number line)]
  | var name line => record "Variable" [("name", quoted name), ("line", number line)]
  | element name index line =>
    record "Index" [("name", quoted name), ("index", index.outline), ("line", number line)]
  | negate operand line =>
    record "UnaryOp" [("op", .leaf "Negate"), ("expr", operand.outline), ("line", number line)]
  | binary op left right line =>
    record "BinaryOp" [("left", left.outline), ("op", .leaf op.title), ("right", right.outline),
      ("line", number line)]

def Target.outline (target : Target) : Outline :=
  record "Target" [("name", quoted target.name),
    ("index", optional (target.index.map Expr.outline)), ("line", number target.line)]

def WriteItem.outline : WriteItem → Outline
  | expr e => wrap "Expr" e.outline
  | layout l => wrap "Layout" (.leaf l.title)

/-- The outline of a sequence whose statements are laid out. -/
def blockOutline (body : List Outline) (line : Nat) : Outline :=
  record "Block" [("statements", list body), ("line", number line)]

mutual

def Statement.outline : Statement → Outline
  | .block body line => wrap "Block" (blockOutline (outlines body) line)
  | .loop body line =>
    record "Loop" [("body", blockOutline (outlines body) line), ("line", number line)]
  | .ifThen condition branch line =>
    record "If" [("condition", condition.outline), ("then_branch", branch.outline),
      ("else_branch", optional none), ("line", number line)]
  | .ifThenElse condition branch other line =>
    record "If" [("condition", condition.outline), ("then_branch", branch.outline),
      ("else_branch", optional (some other.outline)), ("line", number line)]
  | .declare names size type line =>
    record "VarDecl" [("names", list (names.map quoted)),
      ("is_vector", .leaf (if size.isSome then "true" else "false")),
      ("size", optional (size.map Expr.outline)), ("element_type", .leaf type.title),
      ("line", number line)]
  | .assign target value =>
    record "Assign" [("target", target.outline), ("value", value.outline),
      ("line", number target.line)]
  | .read targets line =>
    record "Read" [("targets", list (targets.map Target.outline)), ("line", number line)]
  | .write items line =>
    record "Write" [("items", list (items.map WriteItem.outline)), ("line", number line)]
  | .goto label line => record "Goto" [("label", quoted label), ("line", number line)]
  | .label name line => record "Label" [("name", quoted name), ("line", number line)]
  | .empty line => record "Empty" [("line", number line)]

def outlines : List Statement → List Outline
  | [] => []
  | statement :: rest => statement.outline :: outlines rest

end

def Program.outline (p : Program) : Outline :=
  blockOutline (outlines p.body) p.line

end GotoLang
