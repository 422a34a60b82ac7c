import GotoLang.Binary64.Decimal

set_option autoImplicit false

namespace GotoLang

inductive Keyword where
  | begin | end_ | vector | of | goto | read | write | skip | space | tab
  | if_ | then_ | else_ | loop | integer | real | mod
  deriving DecidableEq

namespace Keyword

def all : List Keyword :=
  [begin, end_, vector, of, goto, read, write, skip, space, tab, if_, then_, else_, loop, integer,
    real, mod]

theorem mem_all (k : Keyword) : k ∈ all := by
  cases k <;> decide

def spelling : Keyword → String
  | begin => "begin"
  | end_ => "end"
  | vector => "vector"
  | of => "of"
  | goto => "goto"
  | read => "read"
  | write => "write"
  | skip => "skip"
  | space => "space"
  | tab => "tab"
  | if_ => "if"
  | then_ => "then"
  | else_ => "else"
  | loop => "loop"
  | integer => "integer"
  | real => "real"
  | mod => "mod"

/-- The reserved word that a word is, in any mixture of letter cases. -/
def ofWord? (word : List Char) : Option Keyword :=
  all.find? fun k => k.spelling.toList == word.map Char.toLower

/-- Whether the word names a type in a declaration. -/
def opensType : Keyword → Bool
  | integer | real | vector => true
  | _ => false

def title : Keyword → String
  | begin => "Begin"
  | end_ => "End"
  | vector => "Vector"
  | of => "Of"
  | goto => "Goto"
  | read => "Read"
  | write => "Write"
  | skip => "Skip"
  | space => "Space"
  | tab => "Tab"
  | if_ => "If"
  | then_ => "Then"
  | else_ => "Else"
  | loop => "Loop"
  | integer => "IntegerType"
  | real => "RealType"
  | mod => "Mod"

end Keyword

inductive Symbol where
  | assign | plus | minus | star | slash
  | equal | notEqual | less | lessEqual | greater | greaterEqual
  | semicolon | colon | comma | leftParen | rightParen | leftBracket | rightBracket
  deriving DecidableEq

namespace Symbol

def spelling : Symbol → String
  | assign => ":="
  | plus => "+"
  | minus => "-"
  | star => "*"
  | slash => "/"
  | equal => "="
  | notEqual => "<>"
  | less => "<"
  | lessEqual => "<="
  | greater => ">"
  | greaterEqual => ">="
  | semicolon => ";"
  | colon => ":"
  | comma => ","
  | leftParen => "("
  | rightParen => ")"
  | leftBracket => "["
  | rightBracket => "]"

/-- The longest symbol at the front of a text, and what follows it. -/
def split? : List Char → Option (Symbol × List Char)
  | ':' :: '=' :: rest => some (assign, rest)
  | ':' :: rest => some (colon, rest)
  | '<' :: '>' :: rest => some (notEqual, rest)
  | '<' :: '=' :: rest => some (lessEqual, rest)
  | '<' :: rest => some (less, rest)
  | '>' :: '=' :: rest => some (greaterEqual, rest)
  | '>' :: rest => some (greater, rest)
  | '=' :: rest => some (equal, rest)
  | '+' :: rest => some (plus, rest)
  | '-' :: rest => some (minus, rest)
  | '*' :: rest => some (star, rest)
  | '/' :: rest => some (slash, rest)
  | ';' :: rest => some (semicolon, rest)
  | ',' :: rest => some (comma, rest)
  | '(' :: rest => some (leftParen, rest)
  | ')' :: rest => some (rightParen, rest)
  | '[' :: rest => some (leftBracket, rest)
  | ']' :: rest => some (rightBracket, rest)
  | _ => none

/-- A symbol that is found is the front of the text. -/
theorem eq_spelling_append_of_split? {text rest : List Char} {s : Symbol}
    (h : split? text = some (s, rest)) : text = s.spelling.toList ++ rest := by
  unfold split? at h
  split at h <;> first | (obtain ⟨rfl, rfl⟩ := h; rfl) | simp at h

theorem split?_rest_length_lt {text rest : List Char} {s : Symbol}
    (h : split? text = some (s, rest)) : rest.length < text.length := by
  rw [eq_spelling_append_of_split? h, List.length_append]
  have positive : 0 < s.spelling.toList.length := by cases s <;> decide
  omega

def title : Symbol → String
  | assign => "Assign"
  | plus => "Plus"
  | minus => "Minus"
  | star => "Star"
  | slash => "Slash"
  | equal => "Equals"
  | notEqual => "NotEqual"
  | less => "Less"
  | lessEqual => "LessEqual"
  | greater => "Greater"
  | greaterEqual => "GreaterEqual"
  | semicolon => "Semicolon"
  | colon => "Colon"
  | comma => "Comma"
  | leftParen => "LParen"
  | rightParen => "RParen"
  | leftBracket => "LBracket"
  | rightBracket => "RBracket"

end Symbol

/-- One unit of a source text. A label is a name together with the colon after it. -/
inductive Token where
  | integer (n : Int64)
  | real (r : Binary64)
  | identifier (name : String)
  | label (name : String)
  | keyword (k : Keyword)
  | symbol (s : Symbol)
  deriving DecidableEq

def Token.toText : Token → String
  | .integer n => s!"Integer({n.toInt})"
  | .real r => s!"Real({r.toText})"
  | .identifier name => s!"Identifier(\"{name}\")"
  | .label name => s!"Label(\"{name}\")"
  | .keyword k => k.title
  | .symbol s => s.title

/-- A token with the line it stands on. -/
structure Lexeme where
  token : Token
  line : Nat
  deriving DecidableEq

end GotoLang
