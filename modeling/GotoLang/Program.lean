import GotoLang.Binary64.Basic

set_option autoImplicit false

namespace GotoLang

inductive ElementType where
  | integer | real
  deriving DecidableEq

inductive BinaryOperator where
  | add | sub | mul | div | mod
  | equal | notEqual | less | lessEqual | greater | greaterEqual
  deriving DecidableEq

/-- How tightly an operator binds, loosest first. -/
inductive Level where
  | relational | additive | multiplicative
  deriving DecidableEq

namespace BinaryOperator

def spelling : BinaryOperator → String
  | add => "+"
  | sub => "-"
  | mul => "*"
  | div => "/"
  | mod => "mod"
  | equal => "="
  | notEqual => "<>"
  | less => "<"
  | lessEqual => "<="
  | greater => ">"
  | greaterEqual => ">="

def level : BinaryOperator → Level
  | mul | div | mod => .multiplicative
  | add | sub => .additive
  | equal | notEqual | less | lessEqual | greater | greaterEqual => .relational

end BinaryOperator

/-- An expression. The line of a binary operation is that of its operator. -/
inductive Expr where
  | integer (n : Int64) (line : Nat)
  | real (r : Binary64) (line : Nat)
  | var (name : String) (line : Nat)
  | element (name : String) (index : Expr) (line : Nat)
  | negate (operand : Expr) (line : Nat)
  | binary (op : BinaryOperator) (left right : Expr) (line : Nat)
  deriving DecidableEq

/-- A place that a value is stored into: a variable, or an element of one. -/
structure Target where
  name : String
  index : Option Expr
  line : Nat
  deriving DecidableEq

/-- What `write` puts between values. -/
inductive Layout where
  | space | tab | skip
  deriving DecidableEq

inductive WriteItem where
  | expr (e : Expr)
  | layout (l : Layout)
  deriving DecidableEq

/-- A statement. A declaration with a size declares vectors. -/
inductive Statement where
  | block (body : List Statement) (line : Nat)
  | loop (body : List Statement) (line : Nat)
  | ifThen (condition : Expr) (branch : Statement) (line : Nat)
  | ifThenElse (condition : Expr) (branch other : Statement) (line : Nat)
  | declare (names : List String) (size : Option Expr) (type : ElementType) (line : Nat)
  | assign (target : Target) (value : Expr)
  | read (targets : List Target) (line : Nat)
  | write (items : List WriteItem) (line : Nat)
  | goto (label : String) (line : Nat)
  | label (name : String) (line : Nat)
  | empty (line : Nat)

def Statement.line : Statement → Nat
  | block _ line | loop _ line | ifThen _ _ line | ifThenElse _ _ _ line | declare _ _ _ line
  | read _ line | write _ line | goto _ line | label _ line | empty line => line
  | assign target _ => target.line

/-- A whole program: the statements of its outermost block and the line that block begins on. -/
structure Program where
  body : List Statement
  line : Nat

end GotoLang
