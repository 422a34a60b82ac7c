import GotoLang.Proofs.Derivation

set_option autoImplicit false

namespace GotoLang

def BinaryOperator.token : BinaryOperator → Token
  | add => .symbol .plus
  | sub => .symbol .minus
  | mul => .symbol .star
  | div => .symbol .slash
  | mod => .keyword .mod
  | equal => .symbol .equal
  | notEqual => .symbol .notEqual
  | less => .symbol .less
  | lessEqual => .symbol .lessEqual
  | greater => .symbol .greater
  | greaterEqual => .symbol .greaterEqual

theorem Token.binaryOperator?_eq_some_iff {t : Token} {op : BinaryOperator} :
    t.binaryOperator? = some op ↔ t = op.token := by
  constructor
  · intro found
    unfold binaryOperator? at found
    split at found <;> cases found <;> rfl
  · rintro rfl
    cases op <;> rfl

@[simp] theorem BinaryOperator.binaryOperator?_token (op : BinaryOperator) :
    op.token.binaryOperator? = some op :=
  Token.binaryOperator?_eq_some_iff.2 rfl

namespace Grammar

/-- How tightly an expression binds, from binary operations to single terms. -/
inductive Tier where
  | binary (level : Level)
  | unary
  | term

end Grammar

def Level.operands : Level → Grammar.Tier
  | relational => .binary .additive
  | additive => .binary .multiplicative
  | multiplicative => .unary

namespace Grammar

/-- The front of a list of tokens is an expression of a tier, and other tokens are left. -/
inductive ExprPhrase : Tier → List Lexeme → Expr → List Lexeme → Prop
  | integer {n : Int64} {line : Nat} {after : List Lexeme} :
      ExprPhrase .term (⟨.integer n, line⟩ :: after) (.integer n line) after
  | real {r : Binary64} {line : Nat} {after : List Lexeme} :
      ExprPhrase .term (⟨.real r, line⟩ :: after) (.real r line) after
  | var {name : String} {line : Nat} {after : List Lexeme} :
      ExprPhrase .term (⟨.identifier name, line⟩ :: after) (.var name line) after
  | element {name : String} {line opened closed : Nat} {ts after : List Lexeme} {index : Expr}
      (inner : ExprPhrase (.binary .relational) ts index
        (⟨.symbol .rightBracket, closed⟩ :: after)) :
      ExprPhrase .term (⟨.identifier name, line⟩ :: ⟨.symbol .leftBracket, opened⟩ :: ts)
        (.element name index line) after
  | parens {opened closed : Nat} {ts after : List Lexeme} {e : Expr}
      (inner : ExprPhrase (.binary .relational) ts e (⟨.symbol .rightParen, closed⟩ :: after)) :
      ExprPhrase .term (⟨.symbol .leftParen, opened⟩ :: ts) e after
  | single {ts after : List Lexeme} {e : Expr} (inner : ExprPhrase .term ts e after) :
      ExprPhrase .unary ts e after
  | negate {line : Nat} {ts after : List Lexeme} {e : Expr} (inner : ExprPhrase .unary ts e after) :
      ExprPhrase .unary (⟨.symbol .minus, line⟩ :: ts) (.negate e line) after
  | operand {level : Level} {ts after : List Lexeme} {e : Expr}
      (inner : ExprPhrase level.operands ts e after) : ExprPhrase (.binary level) ts e after
  | operation {level : Level} {op : BinaryOperator} {line : Nat} {ts between after : List Lexeme}
      {left right : Expr} (onLevel : op.level = level)
      (first : ExprPhrase (.binary level) ts left (⟨op.token, line⟩ :: between))
      (second : ExprPhrase level.operands between right after) :
      ExprPhrase (.binary level) ts (.binary op left right line) after

/-- The front of a list of tokens is an index in brackets, or there is none. -/
inductive IndexPhrase : List Lexeme → Option Expr → List Lexeme → Prop
  | absent {after : List Lexeme} : IndexPhrase after none after
  | present {opened closed : Nat} {ts after : List Lexeme} {index : Expr}
      (inner : ExprPhrase (.binary .relational) ts index
        (⟨.symbol .rightBracket, closed⟩ :: after)) :
      IndexPhrase (⟨.symbol .leftBracket, opened⟩ :: ts) (some index) after

/-- No expression starts with a reserved word. -/
theorem ExprPhrase.ne_keyword {tier : Tier} {ts after : List Lexeme} {e : Expr}
    (phrase : ExprPhrase tier ts e after) (k : Keyword) (line : Nat) (rest : List Lexeme) :
    ts ≠ ⟨.keyword k, line⟩ :: rest := by
  induction phrase with
  | integer | real | var | element | parens | negate => nofun
  | single _ ih | operand _ ih | operation _ _ _ ih => exact ih

/-- A token that was taken is the front of the tokens. -/
theorem eq_cons_of_expect {token : Token} {what : Expectation} {line : Nat} {ts rest : List Lexeme}
    {u : Unit} {shorter : rest.length < ts.length}
    (taken : expect token what line ts = .ok ⟨u, rest, shorter⟩) :
    ∃ l, ts = ⟨token, l⟩ :: rest := by
  cases ts with
  | nil => cases taken
  | cons l _ =>
    by_cases same : l.token = token
    · rw [expect, if_pos same] at taken
      cases taken
      exact ⟨l.line, same ▸ rfl⟩
    · rw [expect, if_neg same] at taken
      cases taken

theorem eq_cons_of_operator? {level : Level} {ts rest : List Lexeme} {op : BinaryOperator}
    {line : Nat} {shorter : rest.length < ts.length}
    (found : operator? level ts = some ⟨(op, line), rest, shorter⟩) :
    op.level = level ∧ ts = ⟨op.token, line⟩ :: rest := by
  cases ts with
  | nil => cases found
  | cons l rest =>
    simp only [operator?] at found
    cases isOperator : l.token.binaryOperator? with
    | none =>
      rw [isOperator] at found
      cases found
    | some other =>
      simp only [isOperator] at found
      by_cases onLevel : other.level = level
      · rw [if_pos onLevel] at found
        cases found
        exact ⟨onLevel, Token.binaryOperator?_eq_some_iff.1 isOperator ▸ rfl⟩
      · rw [if_neg onLevel] at found
        cases found

mutual

theorem exprPhrase_of_binary {level : Level} {ts : List Lexeme} {r : Parsed Expr ts.length}
    (parsed : binary level ts = .ok r) : ExprPhrase (.binary level) ts r.value r.rest := by
  rw [binary.eq_def] at parsed
  obtain ⟨left, found, parsed⟩ := bind_eq_ok.1 parsed
  obtain ⟨whole, others, built⟩ := bind_eq_ok.1 parsed
  cases pure_eq_ok.1 built
  have shorter := left.shorter
  have phrase := exprPhrase_of_operations others (.operand (exprPhrase_of_operand found))
  exact phrase
  termination_by 8 * ts.length + 2 * level.rank + 3

theorem exprPhrase_of_operations {level : Level} {left : Expr} {ts start : List Lexeme}
    {r : Parsed Expr (ts.length + 1)} (parsed : operations level left ts = .ok r)
    (before : ExprPhrase (.binary level) start left ts) :
    ExprPhrase (.binary level) start r.value r.rest := by
  rw [operations.eq_def] at parsed
  split at parsed
  · cases pure_eq_ok.1 parsed
    exact before
  · rename_i op line rest shorter found
    obtain ⟨onLevel, rfl⟩ := eq_cons_of_operator? found
    obtain ⟨right, second, parsed⟩ := bind_eq_ok.1 parsed
    obtain ⟨whole, others, built⟩ := bind_eq_ok.1 parsed
    cases pure_eq_ok.1 built
    have shorterStill := right.shorter
    have grown : ExprPhrase (.binary level) start (.binary op left right.value line) right.rest :=
      .operation onLevel before (exprPhrase_of_operand second)
    have phrase := exprPhrase_of_operations others grown
    exact phrase
  termination_by 8 * ts.length
  decreasing_by all_goals have := level.rank_le; omega

theorem exprPhrase_of_operand {level : Level} {ts : List Lexeme} {r : Parsed Expr ts.length}
    (parsed : operand level ts = .ok r) : ExprPhrase level.operands ts r.value r.rest := by
  rw [operand.eq_def] at parsed
  cases level with
  | relational => exact exprPhrase_of_binary parsed
  | additive => exact exprPhrase_of_binary parsed
  | multiplicative => exact exprPhrase_of_unary parsed
  termination_by 8 * ts.length + 2 * level.rank + 2
  decreasing_by all_goals subst_vars; simp only [Level.rank]; omega

theorem exprPhrase_of_unary {ts : List Lexeme} {r : Parsed Expr ts.length}
    (parsed : unary ts = .ok r) : ExprPhrase .unary ts r.value r.rest := by
  rw [unary.eq_def] at parsed
  split at parsed
  · obtain ⟨inner, found, built⟩ := bind_eq_ok.1 parsed
    cases pure_eq_ok.1 built
    exact .negate (exprPhrase_of_unary found)
  · exact .single (exprPhrase_of_term parsed)
  termination_by 8 * ts.length + 1

theorem exprPhrase_of_term {ts : List Lexeme} {r : Parsed Expr ts.length}
    (parsed : term ts = .ok r) : ExprPhrase .term ts r.value r.rest := by
  rw [term.eq_def] at parsed
  split at parsed
  · cases parsed
  · cases pure_eq_ok.1 parsed
    exact .integer
  · cases pure_eq_ok.1 parsed
    exact .real
  · obtain ⟨⟨place, after, short⟩, found, parsed⟩ := bind_eq_ok.1 parsed
    have indexed : IndexPhrase _ place after := indexPhrase_of_index found
    cases indexed with
    | absent =>
      cases pure_eq_ok.1 parsed
      exact .var
    | present inner =>
      cases pure_eq_ok.1 parsed
      exact .element inner
  · obtain ⟨⟨inner, rest, _⟩, found, parsed⟩ := bind_eq_ok.1 parsed
    obtain ⟨⟨_, after, _⟩, taken, built⟩ := bind_eq_ok.1 parsed
    cases pure_eq_ok.1 built
    obtain ⟨_, rfl⟩ := eq_cons_of_expect taken
    exact .parens (exprPhrase_of_binary found)
  · cases parsed
  termination_by 8 * ts.length
  decreasing_by all_goals subst_vars; simp only [List.length_cons, Level.rank]; omega

theorem indexPhrase_of_index {line : Nat} {ts : List Lexeme}
    {r : Parsed (Option Expr) (ts.length + 1)} (parsed : index line ts = .ok r) :
    IndexPhrase ts r.value r.rest := by
  rw [index.eq_def] at parsed
  split at parsed
  · obtain ⟨⟨inner, rest, _⟩, found, parsed⟩ := bind_eq_ok.1 parsed
    obtain ⟨⟨_, after, _⟩, taken, built⟩ := bind_eq_ok.1 parsed
    cases pure_eq_ok.1 built
    obtain ⟨_, rfl⟩ := eq_cons_of_expect taken
    exact .present (exprPhrase_of_binary found)
  · cases pure_eq_ok.1 parsed
    exact .absent
  termination_by 8 * ts.length
  decreasing_by all_goals subst_vars; simp only [List.length_cons, Level.rank]; omega

end

def Parse.Gives {α : Type} {bound : Nat} (parse : Parse α bound) (value : α) (rest : List Lexeme) :
    Prop :=
  ∃ shorter, parse = .ok ⟨value, rest, shorter⟩

theorem Parse.Gives.bind {α β : Type} {bound other : Nat} {parse : Parse α bound}
    {next : Parsed α bound → Parse β other} {a : α} {b : β} {rest after : List Lexeme}
    (gives : parse.Gives a rest)
    (others : ∀ shorter, (next ⟨a, rest, shorter⟩).Gives b after) :
    Parse.Gives (parse >>= next) b after := by
  obtain ⟨shorter, rfl⟩ := gives
  exact others shorter

/-- The first token does not go on with an expression: it opens no index, and if it is an operator,
then none that binds tighter than a rank. -/
def Stops (rank : Nat) : List Lexeme → Prop
  | [] => True
  | l :: _ => l.token ≠ .symbol .leftBracket ∧
    ∀ op : BinaryOperator, l.token = op.token → rank ≤ op.level.rank

theorem Stops.mono {rank other : Nat} {ts : List Lexeme} (stops : Stops rank ts)
    (less : other ≤ rank) : Stops other ts := by
  cases ts with
  | nil => trivial
  | cons l rest => exact ⟨stops.1, fun op same => Nat.le_trans less (stops.2 op same)⟩

/-- An operator stops what binds tighter. -/
theorem Stops.operator (op : BinaryOperator) (line : Nat) (rest : List Lexeme) :
    Stops op.level.rank (⟨op.token, line⟩ :: rest) := by
  refine ⟨by cases op <;> nofun, fun other same => ?_⟩
  have found := Token.binaryOperator?_eq_some_iff.2 same
  rw [op.binaryOperator?_token] at found
  cases found
  exact Nat.le_refl _

/-- A token that is no operator stops every expression. -/
theorem Stops.of_binaryOperator?_eq_none {rank : Nat} {l : Lexeme} {rest : List Lexeme}
    (noBracket : l.token ≠ .symbol .leftBracket) (noOperator : l.token.binaryOperator? = none) :
    Stops rank (l :: rest) := by
  refine ⟨noBracket, fun op same => ?_⟩
  rw [Token.binaryOperator?_eq_some_iff.2 same] at noOperator
  cases noOperator

theorem operator?_of_stops {level : Level} {ts : List Lexeme} (stops : Stops (level.rank + 1) ts) :
    operator? level ts = none := by
  cases found : operator? level ts with
  | none => rfl
  | some r =>
    obtain ⟨⟨op, line⟩, rest, shorter⟩ := r
    obtain ⟨onLevel, rfl⟩ := eq_cons_of_operator? found
    have tighter := stops.2 _ rfl
    rw [onLevel] at tighter
    omega

theorem operator?_token (op : BinaryOperator) (line : Nat) (rest : List Lexeme) :
    operator? op.level (⟨op.token, line⟩ :: rest) = some (.one (op, line)) := by
  simp only [operator?, BinaryOperator.binaryOperator?_token, if_true]

theorem expect_gives (token : Token) (what : Expectation) (line l : Nat) (rest : List Lexeme) :
    (expect token what line (⟨token, l⟩ :: rest)).Gives () rest := by
  rw [expect, if_pos rfl]
  exact ⟨_, rfl⟩

/-- The rules read a phrase of a tier. What a level reads depends on what the operators behind the
phrase come to. -/
def Reads : Tier → List Lexeme → Expr → List Lexeme → Prop
  | .term, ts, e, after => Stops 0 after → (term ts).Gives e after
  | .unary, ts, e, after => Stops 0 after → (unary ts).Gives e after
  | .binary level, ts, e, after => Stops level.rank after → ∀ whole last,
    (operations level e after).Gives whole last → (binary level ts).Gives whole last

theorem Reads.gives {level : Level} {ts after : List Lexeme} {e : Expr}
    (reads : Reads (.binary level) ts e after) (stops : Stops (level.rank + 1) after) :
    (binary level ts).Gives e after := by
  refine reads (stops.mono (Nat.le_succ _)) e after ?_
  rw [operations.eq_def, operator?_of_stops stops]
  exact ⟨_, rfl⟩

theorem Reads.operand {level : Level} {ts after : List Lexeme} {e : Expr}
    (reads : Reads level.operands ts e after) (stops : Stops level.rank after) :
    (operand level ts).Gives e after := by
  rw [operand.eq_def]
  cases level with
  | relational => exact reads.gives stops
  | additive => exact reads.gives stops
  | multiplicative => exact reads stops

theorem index_absent_gives {line : Nat} {after : List Lexeme} (stops : Stops 0 after) :
    (index line after).Gives none after := by
  rw [index.eq_def]
  split
  · exact absurd rfl stops.1
  · exact ⟨_, rfl⟩

theorem Reads.index {line opened closed : Nat} {ts after : List Lexeme} {e : Expr}
    (reads : Reads (.binary .relational) ts e (⟨.symbol .rightBracket, closed⟩ :: after)) :
    (index line (⟨.symbol .leftBracket, opened⟩ :: ts)).Gives (some e) after := by
  rw [Grammar.index.eq_def]
  refine (reads.gives (.of_binaryOperator?_eq_none nofun rfl)).bind fun _ => ?_
  refine (expect_gives ..).bind fun _ => ?_
  exact ⟨_, rfl⟩

theorem ExprPhrase.reads {tier : Tier} {ts after : List Lexeme} {e : Expr}
    (phrase : ExprPhrase tier ts e after) : Reads tier ts e after := by
  induction phrase with
  | integer | real =>
    intro _
    rw [term.eq_def]
    exact ⟨_, rfl⟩
  | var =>
    intro stops
    rw [term.eq_def]
    refine (index_absent_gives stops).bind fun _ => ?_
    exact ⟨_, rfl⟩
  | element _ ih =>
    intro _
    rw [term.eq_def]
    refine ih.index.bind fun _ => ?_
    exact ⟨_, rfl⟩
  | parens _ ih =>
    intro _
    rw [term.eq_def]
    refine (ih.gives (.of_binaryOperator?_eq_none nofun rfl)).bind fun _ => ?_
    refine (expect_gives ..).bind fun _ => ?_
    exact ⟨_, rfl⟩
  | single inner ih =>
    intro stops
    rw [unary.eq_def]
    split
    · cases inner
    · exact ih stops
  | negate _ ih =>
    intro stops
    rw [unary.eq_def]
    refine (ih stops).bind fun _ => ?_
    exact ⟨_, rfl⟩
  | operand _ ih =>
    intro stops whole last others
    rw [binary.eq_def]
    refine (ih.operand stops).bind fun _ => ?_
    refine others.bind fun _ => ?_
    exact ⟨_, rfl⟩
  | operation onLevel _ _ ihFirst ihSecond =>
    intro stops whole last others
    subst onLevel
    refine ihFirst (.operator _ _ _) whole last ?_
    rw [operations.eq_def, operator?_token]
    refine (ihSecond.operand stops).bind fun _ => ?_
    refine others.bind fun _ => ?_
    exact ⟨_, rfl⟩

/-- An expression that no token goes on with is read as it is. -/
theorem ExprPhrase.gives {ts after : List Lexeme} {e : Expr}
    (phrase : ExprPhrase (.binary .relational) ts e after) (stops : Stops 3 after) :
    (expression ts).Gives e after :=
  phrase.reads.gives stops

theorem IndexPhrase.gives {line : Nat} {ts after : List Lexeme} {e : Option Expr}
    (phrase : IndexPhrase ts e after) (stops : Stops 0 after) : (index line ts).Gives e after := by
  cases phrase with
  | absent => exact index_absent_gives stops
  | present inner => exact inner.reads.index

end Grammar

end GotoLang
