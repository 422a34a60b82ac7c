import GotoLang.Proofs.StatementPhrase

set_option autoImplicit false

namespace GotoLang

/-- Whether the token is a label, or the colon that makes a label of a name. -/
def Token.marksLabel : Token → Bool
  | .label _ | .symbol .colon => true
  | _ => false

theorem BinaryOperator.marksLabel_token (op : BinaryOperator) : op.token.marksLabel = false := by
  cases op <;> rfl

namespace Grammar

def isPlain (ts : List Lexeme) : Bool :=
  ts.all fun l => !l.token.marksLabel

theorem isPlain_append {ts others : List Lexeme} :
    isPlain (ts ++ others) = true ↔ isPlain ts = true ∧ isPlain others = true := by
  rw [isPlain, List.all_append, Bool.and_eq_true]
  rfl

/-- The phrase takes the front of the tokens, takes it whatever follows, and has no part of a label
in it. -/
def TakesFront (phrase : List Lexeme → List Lexeme → Prop) (ts after : List Lexeme) : Prop :=
  ∃ front, ts = front ++ after ∧ isPlain front = true ∧ ∀ other, phrase (front ++ other) other

namespace TakesFront

variable {phrase second whole : List Lexeme → List Lexeme → Prop} {ts between after : List Lexeme}

theorem suffix (takes : TakesFront phrase ts after) : after <:+ ts := by
  obtain ⟨front, rfl, _⟩ := takes
  exact List.suffix_append front after

/-- Given tokens make a phrase. -/
theorem tokens (front : List Lexeme) (plain : isPlain front = true)
    (always : ∀ other, phrase (front ++ other) other) : TakesFront phrase (front ++ after) after :=
  ⟨front, rfl, plain, always⟩

/-- Tokens in front of a phrase make another phrase. -/
theorem behind (opening : List Lexeme) (plain : isPlain opening = true)
    (takes : TakesFront phrase ts after)
    (grown : ∀ {ts after}, phrase ts after → whole (opening ++ ts) after) :
    TakesFront whole (opening ++ ts) after := by
  obtain ⟨front, rfl, plainFront, again⟩ := takes
  refine ⟨opening ++ front, (List.append_assoc ..).symm, isPlain_append.2 ⟨plain, plainFront⟩, ?_⟩
  intro other
  rw [List.append_assoc]
  exact grown (again other)

/-- Two phrases with tokens between them make another phrase. -/
theorem seq (joint : List Lexeme) (plain : isPlain joint = true)
    (first : TakesFront phrase ts (joint ++ between)) (takes : TakesFront second between after)
    (grown : ∀ {ts between after}, phrase ts (joint ++ between) → second between after →
      whole ts after) : TakesFront whole ts after := by
  obtain ⟨front, rfl, plainFront, again⟩ := first
  obtain ⟨back, rfl, plainBack, againBack⟩ := takes
  refine ⟨front ++ (joint ++ back), ?_, ?_, ?_⟩
  · simp only [List.append_assoc]
  · exact isPlain_append.2 ⟨plainFront, isPlain_append.2 ⟨plain, plainBack⟩⟩
  · intro other
    simp only [List.append_assoc]
    exact grown (again _) (againBack other)

/-- A phrase with tokens behind it makes another phrase. -/
theorem closed (closing : List Lexeme) (plain : isPlain closing = true)
    (takes : TakesFront phrase ts (closing ++ after))
    (grown : ∀ {ts after}, phrase ts (closing ++ after) → whole ts after) :
    TakesFront whole ts after :=
  takes.seq closing plain (tokens [] rfl fun _ => rfl : TakesFront Eq after after)
    fun inner same => grown (same ▸ inner)

end TakesFront

theorem ExprPhrase.takesFront {tier : Tier} {ts after : List Lexeme} {e : Expr}
    (phrase : ExprPhrase tier ts e after) :
    TakesFront (fun ts after => ExprPhrase tier ts e after) ts after := by
  induction phrase with
  | integer => exact .tokens [⟨.integer _, _⟩] rfl fun _ => .integer
  | real => exact .tokens [⟨.real _, _⟩] rfl fun _ => .real
  | var => exact .tokens [⟨.identifier _, _⟩] rfl fun _ => .var
  | element _ ih =>
    exact (ih.closed [⟨.symbol .rightBracket, _⟩] rfl id).behind
      [⟨.identifier _, _⟩, ⟨.symbol .leftBracket, _⟩] rfl .element
  | parens _ ih =>
    exact (ih.closed [⟨.symbol .rightParen, _⟩] rfl id).behind [⟨.symbol .leftParen, _⟩] rfl .parens
  | single _ ih => exact ih.behind [] rfl .single
  | negate _ ih => exact ih.behind [⟨.symbol .minus, _⟩] rfl .negate
  | operand _ ih => exact ih.behind [] rfl .operand
  | @operation _ op line _ _ _ _ _ onLevel _ _ ihFirst ihSecond =>
    have plain : isPlain [⟨op.token, line⟩] = true := by
      simp only [isPlain, List.all_cons, List.all_nil, op.marksLabel_token]
      rfl
    exact ihFirst.seq [⟨op.token, line⟩] plain ihSecond (.operation onLevel)

theorem IndexPhrase.takesFront {ts after : List Lexeme} {e : Option Expr}
    (phrase : IndexPhrase ts e after) :
    TakesFront (fun ts after => IndexPhrase ts e after) ts after := by
  cases phrase with
  | absent => exact .tokens [] rfl fun _ => .absent
  | present inner =>
    exact (inner.takesFront.closed [⟨.symbol .rightBracket, _⟩] rfl id).behind
      [⟨.symbol .leftBracket, _⟩] rfl .present

theorem ListPhrase.takesFront {α : Type} {phrase : List Lexeme → α → List Lexeme → Prop}
    {ts after : List Lexeme} {as : List α} (listed : ListPhrase phrase ts as after)
    (each : ∀ ts a after, phrase ts a after →
      TakesFront (fun ts after => phrase ts a after) ts after) :
    TakesFront (fun ts after => ListPhrase phrase ts as after) ts after := by
  induction listed with
  | one only => exact (each _ _ _ only).behind [] rfl .one
  | more first _ ih => exact (each _ _ _ first).seq [⟨.symbol .comma, _⟩] rfl ih .more

theorem NamePhrase.takesFront {ts after : List Lexeme} {name : String}
    (phrase : NamePhrase ts name after) :
    TakesFront (fun ts after => NamePhrase ts name after) ts after := by
  obtain ⟨line, rfl⟩ := phrase
  exact .tokens [⟨.identifier name, line⟩] rfl fun _ => ⟨line, rfl⟩

theorem TargetPhrase.takesFront {ts after : List Lexeme} {t : Target}
    (phrase : TargetPhrase ts t after) :
    TakesFront (fun ts after => TargetPhrase ts t after) ts after := by
  cases phrase with
  | mk indexed => exact indexed.takesFront.behind [⟨.identifier _, _⟩] rfl .mk

theorem WriteItemPhrase.takesFront {ts after : List Lexeme} {item : WriteItem}
    (phrase : WriteItemPhrase ts item after) :
    TakesFront (fun ts after => WriteItemPhrase ts item after) ts after := by
  cases phrase with
  | layout => exact .tokens [⟨.keyword _, _⟩] rfl fun _ => .layout
  | expr inner => exact inner.takesFront.behind [] rfl .expr

theorem SizePhrase.takesFront {ts after : List Lexeme} {size : Option Expr}
    (phrase : SizePhrase ts size after) :
    TakesFront (fun ts after => SizePhrase ts size after) ts after := by
  cases phrase with
  | scalar => exact .tokens [] rfl fun _ => .scalar
  | vector inner =>
    exact (inner.takesFront.closed [⟨.symbol .rightBracket, _⟩, ⟨.keyword .of, _⟩] rfl id).behind
      [⟨.keyword .vector, _⟩, ⟨.symbol .leftBracket, _⟩] rfl .vector

end Grammar

end GotoLang
