import GotoLang.Proofs.Branches
import GotoLang.Proofs.PhraseReading

set_option autoImplicit false

namespace GotoLang

open Grammar

/-- How many tiers bind tighter. -/
def Grammar.Tier.rank : Tier → Nat
  | term => 0
  | unary => 1
  | binary level => level.rank + 2

theorem Grammar.Tier.rank_le (tier : Tier) : tier.rank ≤ (binary .relational).rank := by
  cases tier with
  | term | unary => decide
  | binary level => cases level <;> decide

def Expr.tier : Expr → Tier
  | .integer _ _ | .real _ _ | .var _ _ | .element _ _ _ => .term
  | .negate _ _ => .unary
  | .binary op _ _ _ => .binary op.level

/-- The tokens of an operand, in parentheses on the given line if it needs them. -/
def enclosed (needed : Bool) (line : Nat) (ts : List Lexeme) : List Lexeme :=
  if needed then ⟨.symbol .leftParen, line⟩ :: (ts ++ [⟨.symbol .rightParen, line⟩]) else ts

/-- The tokens of an expression. A left operand needs parentheses if it binds looser than the
operator, a right operand if it binds no tighter, and the operand of a minus sign if it is an
operation between two others. -/
def Expr.render : Expr → List Lexeme
  | .integer n line => [⟨.integer n, line⟩]
  | .real r line => [⟨.real r, line⟩]
  | .var name line => [⟨.identifier name, line⟩]
  | .element name index line =>
    ⟨.identifier name, line⟩ :: ⟨.symbol .leftBracket, line⟩ ::
      (index.render ++ [⟨.symbol .rightBracket, line⟩])
  | .negate operand line =>
    ⟨.symbol .minus, line⟩ ::
      enclosed (decide (Tier.unary.rank < operand.tier.rank)) line operand.render
  | .binary op left right line =>
    enclosed (decide ((Tier.binary op.level).rank < left.tier.rank)) line left.render ++
      ⟨op.token, line⟩ ::
        enclosed (decide ((Tier.binary op.level).rank ≤ right.tier.rank)) line right.render

namespace Grammar

theorem ExprPhrase.binary_of_unary {ts after : List Lexeme} {e : Expr}
    (phrase : ExprPhrase .unary ts e after) (level : Level) :
    ExprPhrase (.binary level) ts e after := by
  cases level with
  | multiplicative => exact .operand phrase
  | additive => exact .operand (.operand phrase)
  | relational => exact .operand (.operand (.operand phrase))

/-- What binds tighter may stand where what binds looser may. -/
theorem ExprPhrase.loosen {tier other : Tier} {ts after : List Lexeme} {e : Expr}
    (phrase : ExprPhrase tier ts e after) (tighter : tier.rank ≤ other.rank) :
    ExprPhrase other ts e after := by
  cases tier with
  | term =>
    cases other with
    | term => exact phrase
    | unary => exact .single phrase
    | binary level => exact .binary_of_unary (.single phrase) level
  | unary =>
    cases other with
    | term => cases tighter
    | unary => exact phrase
    | binary level => exact phrase.binary_of_unary level
  | binary level =>
    cases other with
    | term => simp only [Tier.rank] at tighter; omega
    | unary => simp only [Tier.rank] at tighter; omega
    | binary other =>
      cases level <;> cases other <;> first
        | exact phrase
        | exact .operand phrase
        | exact .operand (.operand phrase)
        | exact absurd tighter (by decide)

/-- An operand may stand in a tier if parentheses are put where it binds looser. -/
theorem ExprPhrase.enclosed {tier other : Tier} {needed : Bool} {line : Nat}
    {ts after : List Lexeme} {e : Expr}
    (phrase : ∀ behind, ExprPhrase tier (ts ++ behind) e behind)
    (free : needed = false → tier.rank ≤ other.rank) :
    ExprPhrase other (GotoLang.enclosed needed line ts ++ after) e after := by
  cases needed with
  | false => exact (phrase after).loosen (free rfl)
  | true =>
    have inner := (phrase (⟨.symbol .rightParen, line⟩ :: after)).loosen tier.rank_le
    have alone : ExprPhrase .term (GotoLang.enclosed true line ts ++ after) e after := by
      simp only [GotoLang.enclosed, if_true, List.cons_append, List.append_assoc, List.nil_append]
      exact .parens inner
    exact alone.loosen (Nat.zero_le _)

theorem operands_rank (level : Level) :
    level.operands.rank + 1 = (Tier.binary level).rank := by
  cases level <;> rfl

/-- The tokens of an expression are a phrase of its tier. -/
theorem exprPhrase_render (e : Expr) (after : List Lexeme) :
    ExprPhrase e.tier (e.render ++ after) e after := by
  induction e generalizing after with
  | integer n line => exact .integer
  | real r line => exact .real
  | var name line => exact .var
  | element name index line ih =>
    have inner := (ih (⟨.symbol .rightBracket, line⟩ :: after)).loosen (Tier.rank_le _)
    simp only [Expr.render, List.cons_append, List.append_assoc, List.nil_append]
    exact .element inner
  | negate operand line ih =>
    refine .negate (.enclosed ih fun free => ?_)
    exact Nat.le_of_not_lt (of_decide_eq_false free)
  | binary op left right line ihLeft ihRight =>
    simp only [Expr.render, List.append_assoc, List.cons_append]
    refine .operation rfl (.enclosed ihLeft fun free => ?_) (.enclosed ihRight fun free => ?_)
    · exact Nat.le_of_not_lt (of_decide_eq_false free)
    · have tighter := Nat.lt_of_not_le (of_decide_eq_false free)
      rw [← operands_rank] at tighter
      exact Nat.le_of_lt_succ tighter

theorem expression_render (e : Expr) (after : List Lexeme) :
    ExprPhrase (.binary .relational) (e.render ++ after) e after :=
  (exprPhrase_render e after).loosen (Tier.rank_le _)

end Grammar

def renderList {α : Type} (line : Nat) (render : α → List Lexeme) : List α → List Lexeme
  | [] => []
  | [a] => render a
  | a :: b :: rest => render a ++ ⟨.symbol .comma, line⟩ :: renderList line render (b :: rest)

def renderName (line : Nat) (name : String) : List Lexeme :=
  [⟨.identifier name, line⟩]

def Target.render (t : Target) : List Lexeme :=
  ⟨.identifier t.name, t.line⟩ :: match t.index with
    | none => []
    | some index =>
      ⟨.symbol .leftBracket, t.line⟩ :: (index.render ++ [⟨.symbol .rightBracket, t.line⟩])

def WriteItem.render (line : Nat) : WriteItem → List Lexeme
  | .expr e => e.render
  | .layout l => [⟨.keyword l.keyword, line⟩]

def renderSize (line : Nat) : Option Expr → List Lexeme
  | none => []
  | some size =>
    ⟨.keyword .vector, line⟩ :: ⟨.symbol .leftBracket, line⟩ ::
      (size.render ++ [⟨.symbol .rightBracket, line⟩, ⟨.keyword .of, line⟩])

namespace Grammar

theorem listPhrase_renderList {α : Type} {phrase : List Lexeme → α → List Lexeme → Prop}
    {line : Nat} {render : α → List Lexeme}
    (each : ∀ a after, phrase (render a ++ after) a after) {as : List α} (filled : as ≠ [])
    (after : List Lexeme) : ListPhrase phrase (renderList line render as ++ after) as after := by
  fun_induction renderList line render as with
  | case1 => exact absurd rfl filled
  | case2 a => exact .one (each a after)
  | case3 a b rest ih =>
    rw [List.append_assoc]
    exact .more (each a _) (ih (List.cons_ne_nil _ _))

theorem targetPhrase_render (t : Target) (after : List Lexeme) :
    TargetPhrase (t.render ++ after) t after := by
  obtain ⟨name, index, line⟩ := t
  cases index with
  | none => exact .mk .absent
  | some index =>
    simp only [Target.render, List.cons_append, List.append_assoc, List.nil_append]
    exact .mk (.present (expression_render index _))

theorem writeItemPhrase_render (line : Nat) (item : WriteItem) (after : List Lexeme) :
    WriteItemPhrase (item.render line ++ after) item after := by
  cases item with
  | expr e => exact .expr (expression_render e after)
  | layout l => exact .layout

theorem sizePhrase_render (line : Nat) (size : Option Expr) (after : List Lexeme) :
    SizePhrase (renderSize line size ++ after) size after := by
  cases size with
  | none => exact .scalar
  | some size =>
    simp only [renderSize, List.cons_append, List.append_assoc, List.nil_append]
    exact .vector (expression_render size _)

end Grammar

namespace Statement

def isLabel : Statement → Bool
  | label _ _ => true
  | _ => false

/-- What the text of a statement ends in: the last branch of an `if`, and so on inside that. -/
def lastBranch : Statement → Statement
  | ifThen _ branch _ => branch.lastBranch
  | ifThenElse _ _ other _ => other.lastBranch
  | s => s

/-- The text of the statement ends in an `if` without `else`. -/
def endsOpen : Statement → Bool
  | ifThen _ _ _ => true
  | ifThenElse _ _ other _ => other.endsOpen
  | _ => false

/-- The line of the token behind a statement: an empty statement records it, and behind others it
is the line of the statement. -/
def closingLine (s : Statement) : Nat :=
  match s.lastBranch with
  | empty line => line
  | _ => s.line

/-- What stands between a statement and the next one of a sequence. A label belongs to the item
that the next statement is part of. -/
def separator (s : Statement) : List Lexeme :=
  if s.isLabel then [] else [⟨.symbol .semicolon, s.closingLine⟩]

end Statement

mutual

def Statement.render : Statement → List Lexeme
  | .block body line => ⟨.keyword .begin, line⟩ :: (renderAll body ++ [⟨.keyword .end_, line⟩])
  | .loop body line => ⟨.keyword .loop, line⟩ :: (renderAll body ++ [⟨.keyword .end_, line⟩])
  | .ifThen condition branch line =>
    ⟨.keyword .if_, line⟩ :: (condition.render ++ ⟨.keyword .then_, line⟩ :: branch.render)
  | .ifThenElse condition branch other line =>
    ⟨.keyword .if_, line⟩ :: (condition.render ++ ⟨.keyword .then_, line⟩ ::
      (branch.render ++ ⟨.keyword .else_, branch.closingLine⟩ :: other.render))
  | .declare names size type line =>
    renderList line (renderName line) names ++ ⟨.symbol .colon, line⟩ ::
      (renderSize line size ++ [⟨.keyword type.keyword, line⟩])
  | .assign target value => target.render ++ ⟨.symbol .assign, target.line⟩ :: value.render
  | .read targets line => ⟨.keyword .read, line⟩ :: renderList line Target.render targets
  | .write items line => ⟨.keyword .write, line⟩ :: renderList line (WriteItem.render line) items
  | .goto name line => [⟨.keyword .goto, line⟩, ⟨.identifier name, line⟩]
  | .label name line => [⟨.label name, line⟩]
  | .empty _ => []

def renderAll : List Statement → List Lexeme
  | [] => []
  | s :: rest => s.render ++ (s.separator ++ renderAll rest)

end

def Program.render (p : Program) : List Lexeme :=
  (Statement.block p.body p.line).render

def EndsUnlabelled (body : List Statement) : Prop :=
  ∀ s ∈ body.getLast?, s.isLabel = false

namespace Statement

/-- The lists of a statement are not empty, no sequence in it ends in a label, and an `else` is not
taken by the branch before it. -/
def Proper : Statement → Prop
  | block body _ | loop body _ => EndsUnlabelled body
  | ifThenElse _ branch _ _ => branch.endsOpen = false
  | declare names _ _ _ => names ≠ []
  | read targets _ => targets ≠ []
  | write items _ => items ≠ []
  | _ => True

/-- The statement can be written out, provided that the statements in it can. -/
def WellFormed (s : Statement) : Prop :=
  s.PlainBranches ∧ s.Proper

end Statement

def Program.WellFormed (p : Program) : Prop :=
  EndsUnlabelled p.body ∧ ∀ s ∈ p.body, s.Everywhere Statement.WellFormed

namespace Statement

/-- A token may stand behind the tokens of a statement. -/
structure Fits (s : Statement) (l : Lexeme) : Prop where
  follows : followsEmpty l.token = true
  onLine : ∀ line, s.lastBranch = .empty line → l.line = line
  closes : s.endsOpen = true → l.token ≠ .keyword .else_

theorem closingLine_of_lastBranch {s : Statement} {line : Nat} (ends : s.lastBranch = .empty line) :
    s.closingLine = line := by
  rw [closingLine, ends]

theorem fits_semicolon (s : Statement) : s.Fits ⟨.symbol .semicolon, s.closingLine⟩ :=
  ⟨rfl, fun _ => closingLine_of_lastBranch, nofun⟩

theorem fits_else {s : Statement} (closed : s.endsOpen = false) :
    s.Fits ⟨.keyword .else_, s.closingLine⟩ :=
  ⟨rfl, fun _ => closingLine_of_lastBranch, fun opened => absurd (closed.symm.trans opened) nofun⟩

end Statement

namespace Grammar

theorem declarationPhrase_render {names : List String} (filled : names ≠ []) (size : Option Expr)
    (type : ElementType) (line : Nat) (after : List Lexeme) :
    DeclarationPhrase ((Statement.declare names size type line).render ++ after)
      (.declare names size type line) after := by
  have listed (behind : List Lexeme) :
      ListPhrase NamePhrase (renderList line (renderName line) names ++ behind) names behind :=
    listPhrase_renderList (fun _ _ => ⟨line, rfl⟩) filled behind
  have sized := sizePhrase_render line size (⟨.keyword type.keyword, line⟩ :: after)
  obtain ⟨name, others, rfl⟩ := List.exists_cons_of_ne_nil filled
  have starts : ∃ ts, renderList line (renderName line) (name :: others) =
      ⟨.identifier name, line⟩ :: ts := by
    cases others <;> exact ⟨_, rfl⟩
  obtain ⟨ts, starts⟩ := starts
  simp only [Statement.render, List.append_assoc, List.cons_append, List.nil_append]
  rw [starts] at listed ⊢
  exact .mk (listed _) sized

/-- Labels in front of a body belong to its first item. -/
theorem Phrase.label_body {name : String} {line : Nat} {ts after : List Lexeme}
    {body : List Statement} (phrase : Phrase .body ts body after) (filled : body ≠ []) :
    Phrase .body (⟨.label name, line⟩ :: ts) (.label name line :: body) after := by
  cases phrase with
  | close => exact absurd rfl filled
  | last _ inner => exact .last nofun (.label inner)
  | cons inner rest => exact .cons (.label inner) rest

/-- The tokens of a sequence are a body if those of its statements are phrases. -/
theorem phrase_renderAll {body : List Statement} {line : Nat} {after : List Lexeme}
    (each : ∀ s ∈ body, s.isPlain = true → ∀ behind,
      Phrase .statement (s.render ++ ⟨.symbol .semicolon, s.closingLine⟩ :: behind) [s]
        (⟨.symbol .semicolon, s.closingLine⟩ :: behind))
    (well : ∀ s ∈ body, s.WellFormed) (ends : EndsUnlabelled body) :
    Phrase .body (renderAll body ++ ⟨.keyword .end_, line⟩ :: after) body after := by
  induction body with
  | nil => exact .close
  | cons s rest ih =>
    obtain ⟨first, others⟩ := List.forall_mem_cons.1 each
    obtain ⟨wellFirst, wellOthers⟩ := List.forall_mem_cons.1 well
    have endsOthers : EndsUnlabelled rest := by
      intro last found
      refine ends last ?_
      rw [List.getLast?_cons, found]
      rfl
    have inner := ih others wellOthers endsOthers
    rw [renderAll, List.append_assoc, List.append_assoc]
    cases s with
    | label name l =>
      refine inner.label_body ?_
      rintro rfl
      cases ends _ rfl
    | declare names size type l =>
      exact .cons (.declared (declarationPhrase_render wellFirst.2 size type l _)) inner
    | _ => exact .cons (.single (first rfl _)) inner

/-- The tokens of a statement that is no label and no declaration are a phrase. -/
theorem phrase_render {s : Statement} (well : s.Everywhere Statement.WellFormed)
    (plain : s.isPlain = true) {l : Lexeme} (fits : s.Fits l) (after : List Lexeme) :
    Phrase .statement (s.render ++ l :: after) [s] (l :: after) := by
  induction s generalizing l after with
  | block body line ih =>
    obtain ⟨here, inside⟩ := Statement.Everywhere.block.1 well
    have inner : Phrase .body (renderAll body ++ ⟨.keyword .end_, line⟩ :: l :: after) body _ :=
      phrase_renderAll (fun s member free => ih s member (inside s member) free s.fits_semicolon)
        (fun s member => (inside s member).here) here.2
    simp only [Statement.render, List.cons_append, List.append_assoc, List.nil_append]
    exact .block inner
  | loop body line ih =>
    obtain ⟨here, inside⟩ := Statement.Everywhere.loop.1 well
    have inner : Phrase .body (renderAll body ++ ⟨.keyword .end_, line⟩ :: l :: after) body _ :=
      phrase_renderAll (fun s member free => ih s member (inside s member) free s.fits_semicolon)
        (fun s member => (inside s member).here) here.2
    simp only [Statement.render, List.cons_append, List.append_assoc, List.nil_append]
    exact .loop inner
  | ifThen condition branch line ih =>
    obtain ⟨here, inside⟩ := Statement.Everywhere.ifThen.1 well
    have inner := ih inside here.1 ⟨fits.follows, fits.onLine, fun _ => fits.closes rfl⟩ after
    simp only [Statement.render, List.cons_append, List.append_assoc]
    refine .ifThen (expression_render condition _) inner ?_
    rintro «else» rest ⟨⟩
    exact fits.closes rfl rfl
  | ifThenElse condition branch other line ih ihOther =>
    obtain ⟨here, inBranch, inOther⟩ := Statement.Everywhere.ifThenElse.1 well
    have inner := ih inBranch here.1.1 (Statement.fits_else here.2)
    have innerOther := ihOther inOther here.1.2 ⟨fits.follows, fits.onLine, fits.closes⟩ after
    simp only [Statement.render, List.cons_append, List.append_assoc]
    exact .ifThenElse (expression_render condition _) (inner _) innerOther
  | declare names size type line => cases plain
  | assign target value =>
    simp only [Statement.render, List.cons_append, List.append_assoc]
    exact .assign (targetPhrase_render target _) (expression_render value _)
  | read targets line =>
    exact .read (listPhrase_renderList targetPhrase_render well.here.2 _)
  | write items line =>
    exact .write (listPhrase_renderList (writeItemPhrase_render line) well.here.2 _)
  | goto name line => exact .goto
  | label name line => cases plain
  | empty line =>
    obtain rfl := fits.onLine line rfl
    exact .empty fits.follows

theorem programPhrase_render {p : Program} (well : p.WellFormed) : ProgramPhrase p.render p := by
  obtain ⟨ends, inside⟩ := well
  have inner : Phrase .body (renderAll p.body ++ [⟨.keyword .end_, p.line⟩]) p.body [] :=
    phrase_renderAll (fun s member free => phrase_render (inside s member) free s.fits_semicolon)
      (fun s member => (inside s member).here) ends
  exact ⟨_, _, rfl, inner, List.forall_mem_nil _⟩

theorem ListPhrase.ne_nil {α : Type} {phrase : List Lexeme → α → List Lexeme → Prop}
    {ts after : List Lexeme} {as : List α} (listed : ListPhrase phrase ts as after) : as ≠ [] := by
  cases listed <;> exact List.cons_ne_nil _ _

/-- What a phrase of a part stands for is proper. The statement before an `else` takes no other
`else`, and labels have something that they mark. -/
def Part.Yields (part : Part) (built : List Statement) (after : List Lexeme) : Prop :=
  (∀ s ∈ built, s.Everywhere Statement.Proper) ∧ match part with
    | statement => ∃ s, built = [s] ∧ s.isLabel = false ∧
        ∀ line rest, after = ⟨.keyword .else_, line⟩ :: rest → s.endsOpen = false
    | item => ∃ s, built.getLast? = some s ∧ s.isLabel = false
    | body => EndsUnlabelled built

theorem Part.Yields.single {s : Statement} {after : List Lexeme}
    (proper : s.Everywhere Statement.Proper) (unlabelled : s.isLabel = false)
    (closed : ∀ line rest, after = ⟨.keyword .else_, line⟩ :: rest → s.endsOpen = false) :
    Part.statement.Yields [s] after :=
  ⟨List.forall_mem_singleton.2 proper, s, rfl, unlabelled, closed⟩

theorem Part.Yields.leaf {s : Statement} {after : List Lexeme} (alone : s.all = [s])
    (proper : s.Proper) (unlabelled : s.isLabel = false) (closed : s.endsOpen = false) :
    Part.statement.Yields [s] after :=
  .single ((Statement.Everywhere.leaf alone).2 proper) unlabelled fun _ _ _ => closed

theorem Part.Yields.labelled {name : String} {line : Nat} {labelled : List Statement}
    {after : List Lexeme} (yields : Part.item.Yields labelled after) :
    Part.item.Yields (.label name line :: labelled) after := by
  obtain ⟨proper, s, last, unlabelled⟩ := yields
  refine ⟨List.forall_mem_cons.2 ⟨(Statement.Everywhere.leaf rfl).2 trivial, proper⟩, s, ?_,
    unlabelled⟩
  rw [List.getLast?_cons, last]
  rfl

theorem Phrase.yields {part : Part} {ts after : List Lexeme} {built : List Statement}
    (phrase : Phrase part ts built after) : part.Yields built after := by
  induction phrase with
  | block _ ih => exact .single (Statement.Everywhere.block.2 ⟨ih.2, ih.1⟩) rfl fun _ _ _ => rfl
  | loop _ ih => exact .single (Statement.Everywhere.loop.2 ⟨ih.2, ih.1⟩) rfl fun _ _ _ => rfl
  | ifThen _ _ alone ih =>
    have inside := List.forall_mem_singleton.1 ih.1
    exact .single (Statement.Everywhere.ifThen.2 ⟨trivial, inside⟩) rfl
      fun line rest other => absurd other (alone line rest)
  | ifThenElse _ _ _ ih ihOther =>
    obtain ⟨inBranch, _, ⟨⟩, _, closed⟩ := ih
    obtain ⟨inOther, _, ⟨⟩, _, closedOther⟩ := ihOther
    have inBranch := List.forall_mem_singleton.1 inBranch
    have inOther := List.forall_mem_singleton.1 inOther
    exact .single (Statement.Everywhere.ifThenElse.2 ⟨closed _ _ rfl, inBranch, inOther⟩) rfl
      closedOther
  | goto => exact .leaf rfl trivial rfl rfl
  | read listed => exact .leaf rfl listed.ne_nil rfl rfl
  | write listed => exact .leaf rfl listed.ne_nil rfl rfl
  | assign _ _ => exact .leaf rfl trivial rfl rfl
  | empty _ => exact .leaf rfl trivial rfl rfl
  | label _ ih | name _ _ ih => exact ih.labelled
  | declared inner =>
    cases inner with
    | mk listed _ =>
      exact ⟨List.forall_mem_singleton.2 ((Statement.Everywhere.leaf rfl).2 listed.ne_nil), _, rfl,
        rfl⟩
  | single _ ih =>
    obtain ⟨proper, _, ⟨⟩, unlabelled, _⟩ := ih
    exact ⟨proper, _, rfl, unlabelled⟩
  | close => exact ⟨List.forall_mem_nil _, nofun⟩
  | last _ _ ih =>
    obtain ⟨proper, s, last, unlabelled⟩ := ih
    refine ⟨proper, fun other found => ?_⟩
    cases last.symm.trans found
    exact unlabelled
  | @cons _ _ _ _ _ others _ _ ih ihRest =>
    obtain ⟨proper, s, last, unlabelled⟩ := ih
    refine ⟨List.forall_mem_append.2 ⟨proper, ihRest.1⟩, fun other found => ?_⟩
    rw [List.getLast?_append, last] at found
    cases behind : others.getLast? with
    | none =>
      rw [behind] at found
      cases found
      exact unlabelled
    | some _ =>
      rw [behind] at found
      cases found
      exact ihRest.2 _ behind

theorem wellFormed_of_program {ts : List Lexeme} {p : Program} (parsed : program ts = .ok p) :
    p.WellFormed := by
  obtain ⟨rest, after, _, derives, _⟩ := wholeProgram_derives (wholeProgram_of_program parsed)
  have plain := derives.plain.1
  obtain ⟨proper, ends⟩ := derives.phrase.yields
  exact ⟨ends, fun s member t inside => ⟨plain s member t inside, proper s member t inside⟩⟩

/-- A program that is written out is read back with its lines, if its tree is one that can be
written out. The trees that are read from any tokens are such trees. -/
theorem program_render :
    (∀ p : Program, p.WellFormed → program p.render = .ok p) ∧
      ∀ ts p, program ts = .ok p → p.WellFormed ∧ program p.render = .ok p := by
  have back : ∀ p : Program, p.WellFormed → program p.render = .ok p :=
    fun _ well => (programPhrase_render well).program_eq
  refine ⟨back, fun ts p parsed => ?_⟩
  have well := wellFormed_of_program parsed
  exact ⟨well, back p well⟩

/-- A right operand of the same level keeps its parentheses, an empty branch gives its line to the
`else` behind it, and labels stand in front of what they mark. -/
theorem program_render_of_tree :
    let p : Program := ⟨[.label "a" 2, .ifThenElse
      (.binary .sub (.var "x" 2) (.binary .sub (.integer 1 2) (.var "y" 2) 2) 2)
      (.empty 3) (.loop [.declare ["z"] none .integer 4] 4) 2], 1⟩
    p.WellFormed ∧ program p.render = .ok p := by
  intro p
  have last : EndsUnlabelled [.declare ["z"] none .integer 4] := by
    rintro _ ⟨⟩
    rfl
  have declared : (Statement.declare ["z"] none .integer 4).Everywhere Statement.WellFormed :=
    (Statement.Everywhere.leaf rfl).2 ⟨trivial, List.cons_ne_nil _ _⟩
  have loop : (Statement.loop [.declare ["z"] none .integer 4] 4).Everywhere Statement.WellFormed :=
    Statement.Everywhere.loop.2 ⟨⟨trivial, last⟩, List.forall_mem_singleton.2 declared⟩
  have empty : (Statement.empty 3).Everywhere Statement.WellFormed :=
    (Statement.Everywhere.leaf rfl).2 ⟨trivial, trivial⟩
  have label : (Statement.label "a" 2).Everywhere Statement.WellFormed :=
    (Statement.Everywhere.leaf rfl).2 ⟨trivial, trivial⟩
  have well : p.WellFormed := by
    refine ⟨?_, List.forall_mem_cons.2 ⟨label, List.forall_mem_singleton.2 ?_⟩⟩
    · rintro _ ⟨⟩
      rfl
    · exact Statement.Everywhere.ifThenElse.2 ⟨⟨⟨rfl, rfl⟩, rfl⟩, empty, loop⟩
  exact program_render.2 p.render p (program_render.1 p well)

end Grammar

end GotoLang
