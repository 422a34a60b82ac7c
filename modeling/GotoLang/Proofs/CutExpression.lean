import GotoLang.Proofs.StatementPhrase

set_option autoImplicit false

namespace GotoLang

namespace Grammar

/-- The lines that are open behind a token, if these are open before it: `begin` and `loop` open
their line, and `end` closes the last one. -/
def openAfter (opened : List Nat) (l : Lexeme) : List Nat :=
  match l.token with
  | .keyword .begin | .keyword .loop => l.line :: opened
  | .keyword .end_ => opened.tail
  | _ => opened

/-- The lines of the tokens `begin` and `loop` that no `end` closes, the last one first. -/
def unclosed (ts : List Lexeme) : List Nat :=
  ts.foldl openAfter []

/-- The tokens end in the head of a declaration of several names: behind a comma on the given line,
and before the name of a type that comes behind the cut. -/
def CutInHead (tokens behind : List Lexeme) (comma : Nat) : Prop :=
  ∃ before name line inside,
    tokens = before ++ ⟨.identifier name, line⟩ :: ⟨.symbol .comma, comma⟩ :: inside ∧
      StartsDeclaration
        (⟨.identifier name, line⟩ :: ⟨.symbol .comma, comma⟩ :: (inside ++ behind)) ∧
      ¬ StartsDeclaration (⟨.identifier name, line⟩ :: ⟨.symbol .comma, comma⟩ :: inside)

/-- The error says of the tokens before a cut that they are not finished. Only where the head of a
declaration is cut, the first name is taken for the target of an assignment. -/
inductive Unfinished (tokens behind : List Lexeme) : SourceError → Prop
  | endOfInput {line : Nat} : Unfinished tokens behind ⟨.endOfInput, line⟩
  | missingEnd {line : Nat} (last : (unclosed tokens).head? = some line) :
      Unfinished tokens behind ⟨.missingEnd, line⟩
  | head {comma : Nat} (cut : CutInHead tokens behind comma) :
      Unfinished tokens behind ⟨.expected .assignAfterTarget (.symbol .comma), comma⟩

/-- The rest of the tokens, with these lines open before it. -/
def Remains (tokens : List Lexeme) (opened : List Nat) (rest : List Lexeme) : Prop :=
  ∃ front, tokens = front ++ rest ∧ unclosed front = opened

theorem Remains.next {tokens rest : List Lexeme} {opened : List Nat} {l : Lexeme}
    (here : Remains tokens opened (l :: rest)) : Remains tokens (openAfter opened l) rest := by
  obtain ⟨front, split, before⟩ := here
  refine ⟨front ++ [l], ?_, ?_⟩
  · rw [split, List.append_assoc, List.singleton_append]
  · rw [unclosed, List.foldl_append, ← before]
    rfl

theorem Remains.unclosed_eq {tokens : List Lexeme} {opened : List Nat}
    (here : Remains tokens opened []) : unclosed tokens = opened := by
  obtain ⟨front, split, before⟩ := here
  rw [split, List.append_nil, before]

theorem Remains.missingEnd {tokens : List Lexeme} {opened : List Nat} {line : Nat}
    (here : Remains tokens (line :: opened) []) (behind : List Lexeme) :
    Unfinished tokens behind ⟨.missingEnd, line⟩ := by
  apply Unfinished.missingEnd
  rw [here.unclosed_eq]
  rfl

/-- What a rule does on the tokens before a cut, beside what it does on all of them. A rule that may
go on with more tokens can leave off at the cut. What is open behind what it has taken depends on
the value. -/
inductive Continues (tokens behind : List Lexeme) {α : Type} (opened : α → List Nat)
    (goesOn : Bool) {n m : Nat} : Parse α n → Parse α m → Prop
  | ok {a : α} {rest : List Lexeme} {short : rest.length < n} {shorter : (rest ++ behind).length < m}
      (left : Remains tokens (opened a) rest) :
      Continues tokens behind opened goesOn (.ok ⟨a, rest, short⟩) (.ok ⟨a, rest ++ behind, shorter⟩)
  | early {a : α} {short : [].length < n} {whole : Parse α m} (may : goesOn = true)
      (left : Remains tokens (opened a) []) :
      Continues tokens behind opened goesOn (.ok ⟨a, [], short⟩) whole
  | unfinished {e : SourceError} {whole : Parse α m} (ends : Unfinished tokens behind e) :
      Continues tokens behind opened goesOn (.error e) whole
  | error {e : SourceError} : Continues tokens behind opened goesOn (.error e) (.error e)

variable {tokens behind : List Lexeme} {α β : Type} {opened : List Nat}

theorem Continues.bind {n m k l : Nat} {before : α → List Nat} {after : β → List Nat}
    {goesOn later : Bool} {one : Parse α n} {other : Parse α m} {next : Parsed α n → Parse β k}
    {following : Parsed α m → Parse β l} (first : Continues tokens behind before goesOn one other)
    (others : ∀ a rest short shorter, Remains tokens (before a) rest →
      Continues tokens behind after later (next ⟨a, rest, short⟩)
        (following ⟨a, rest ++ behind, shorter⟩))
    (ends : goesOn = true → ∀ a short (whole : Parse β l), Remains tokens (before a) [] →
      Continues tokens behind after later (next ⟨a, [], short⟩) whole) :
    Continues tokens behind after later (one >>= next) (other >>= following) := by
  cases first with
  | ok left => exact others _ _ _ _ left
  | early may left => exact ends may _ _ _ left
  | unfinished ends => exact .unfinished ends
  | error => exact .error

/-- The last step of a rule takes no token and gives a value for what was read before it. -/
theorem Continues.map {n m k l : Nat} {goesOn : Bool} {one : Parse α n} {other : Parse α m}
    {short : ∀ r : Parsed α n, r.rest.length < k} {shorter : ∀ r : Parsed α m, r.rest.length < l}
    (first : Continues tokens behind (fun _ => opened) goesOn one other) (f : α → β) :
    Continues tokens behind (fun _ => opened) goesOn
      (one >>= fun r => .ok ⟨f r.value, r.rest, short r⟩)
      (other >>= fun r => .ok ⟨f r.value, r.rest, shorter r⟩) := by
  apply first.bind
  · intro a rest _ _ left
    exact .ok left
  · intro may a _ _ left
    exact .early may left

/-- A rule that never leaves off early keeps to the law of those that may. -/
theorem Continues.of_strict {n m : Nat} {goesOn : Bool} {one : Parse α n} {other : Parse α m}
    (strict : Continues tokens behind (fun _ => opened) false one other) :
    Continues tokens behind (fun _ => opened) goesOn one other := by
  cases strict with
  | ok left => exact .ok left
  | early may => cases may
  | unfinished ends => exact .unfinished ends
  | error => exact .error

/-- The token is one that neither opens nor closes anything. -/
theorem expect_continues {ts : List Lexeme} {token : Token}
    (plain : ∀ opened line, openAfter opened ⟨token, line⟩ = opened)
    (here : Remains tokens opened ts) (what : Expectation) (line : Nat) :
    Continues tokens behind (fun _ => opened) false (expect token what line ts)
      (expect token what line (ts ++ behind)) := by
  cases ts with
  | nil => exact .unfinished .endOfInput
  | cons l rest =>
    by_cases same : l.token = token
    · have left := here.next
      rw [← same] at plain
      rw [show openAfter opened l = opened from plain opened l.line] at left
      simp only [List.cons_append, expect, if_pos same]
      exact .ok left
    · simp only [List.cons_append, expect, if_neg same]
      exact .error

theorem identifier_continues {ts : List Lexeme} (here : Remains tokens opened ts) (line : Nat) :
    Continues tokens behind (fun _ => opened) false (identifier line ts)
      (identifier line (ts ++ behind)) := by
  cases ts with
  | nil => exact .unfinished .endOfInput
  | cons l rest =>
    obtain ⟨token, here⟩ := l
    cases token with
    | identifier name => exact .ok here.next
    | integer | real | label | keyword | symbol => exact .error

theorem openAfter_of_binaryOperator? {l : Lexeme} {op : BinaryOperator}
    (found : l.token.binaryOperator? = some op) (opened : List Nat) :
    openAfter opened l = opened := by
  obtain ⟨token, line⟩ := l
  have same := Token.binaryOperator?_eq_some_iff.1 found
  dsimp only at same
  subst same
  cases op <;> rfl

theorem operations_nil (level : Level) (left : Expr) :
    operations level left [] = .ok (.zero left) := by
  rw [operations.eq_def]
  rfl

theorem unary_of_ne {ts : List Lexeme} (other : ∀ line rest, ts ≠ ⟨.symbol .minus, line⟩ :: rest) :
    unary ts = term ts := by
  rw [unary.eq_def]
  split
  · exact absurd rfl (other _ _)
  · rfl

theorem index_of_ne {ts : List Lexeme}
    (other : ∀ line rest, ts ≠ ⟨.symbol .leftBracket, line⟩ :: rest) (line : Nat) :
    index line ts = .ok (.zero none) := by
  rw [index.eq_def]
  split
  · exact absurd rfl (other _ _)
  · rfl

/-- Tokens that begin with another token go on to do so. -/
theorem ne_cons_of_ne {token : Token} {l : Lexeme} (other : l.token ≠ token) (rest : List Lexeme) :
    ∀ line after, l :: rest ≠ ⟨token, line⟩ :: after := by
  intro line after same
  cases same
  exact other rfl

mutual

theorem binary_continues {ts : List Lexeme} (here : Remains tokens opened ts) (level : Level) :
    Continues tokens behind (fun _ => opened) true (binary level ts)
      (binary level (ts ++ behind)) := by
  rw [binary.eq_def, binary.eq_def level (ts ++ behind)]
  apply (operand_continues here level).bind
  · intro left rest short _ between
    exact (operations_continues between level left).map id
  · -- The tokens are used up behind the operand, and what there is of the expression is taken.
    intro _ left short whole after
    simp only [operations_nil]
    exact .early rfl after
  termination_by 8 * ts.length + 2 * level.rank + 3

theorem operations_continues {ts : List Lexeme} (here : Remains tokens opened ts) (level : Level)
    (left : Expr) :
    Continues tokens behind (fun _ => opened) true (operations level left ts)
      (operations level left (ts ++ behind)) := by
  rw [operations.eq_def, operations.eq_def level left (ts ++ behind)]
  cases ts with
  | nil => exact .early rfl here
  | cons l rest =>
    simp only [List.cons_append, operator?]
    cases found : l.token.binaryOperator? with
    | none => exact .ok here
    | some op =>
      by_cases onLevel : op.level = level
      · have between := here.next
        rw [openAfter_of_binaryOperator? found] at between
        simp only [if_pos onLevel]
        apply (operand_continues between level).bind
        · intro right rest short _ following
          exact (operations_continues following level (.binary op left right l.line)).map id
        · intro _ right short whole after
          simp only [operations_nil]
          exact .early rfl after
      · simp only [if_neg onLevel]
        exact .ok here
  termination_by 8 * ts.length
  decreasing_by all_goals have := level.rank_le; subst_vars; simp only [List.length_cons] at *; omega

theorem operand_continues {ts : List Lexeme} (here : Remains tokens opened ts) (level : Level) :
    Continues tokens behind (fun _ => opened) true (operand level ts)
      (operand level (ts ++ behind)) := by
  rw [operand.eq_def, operand.eq_def level (ts ++ behind)]
  cases level with
  | relational => exact binary_continues here .additive
  | additive => exact binary_continues here .multiplicative
  | multiplicative => exact unary_continues here
  termination_by 8 * ts.length + 2 * level.rank + 2
  decreasing_by all_goals subst_vars; simp only [Level.rank]; omega

theorem unary_continues {ts : List Lexeme} (here : Remains tokens opened ts) :
    Continues tokens behind (fun _ => opened) true (unary ts) (unary (ts ++ behind)) := by
  cases ts with
  | nil =>
    have noMinus : ∀ line rest, ([] : List Lexeme) ≠ ⟨.symbol .minus, line⟩ :: rest := nofun
    rw [unary_of_ne noMinus, term.eq_def]
    exact .unfinished .endOfInput
  | cons l rest =>
    rw [List.cons_append]
    by_cases minus : l.token = .symbol .minus
    · obtain ⟨token, line⟩ := l
      cases minus
      rw [unary.eq_def, unary.eq_def (_ :: (rest ++ behind))]
      exact (unary_continues here.next).map (Expr.negate · line)
    · rw [unary_of_ne (ne_cons_of_ne minus _), unary_of_ne (ne_cons_of_ne minus _)]
      exact term_continues here
  termination_by 8 * ts.length + 1

theorem term_continues {ts : List Lexeme} (here : Remains tokens opened ts) :
    Continues tokens behind (fun _ => opened) true (term ts) (term (ts ++ behind)) := by
  rw [term.eq_def, term.eq_def (ts ++ behind)]
  cases ts with
  | nil => exact .unfinished .endOfInput
  | cons l rest =>
    obtain ⟨token, line⟩ := l
    have between := here.next
    cases token with
    | integer n => exact .ok between
    | real r => exact .ok between
    | identifier name =>
      apply (index_continues between line).bind
      · intro index rest _ _ after
        cases index <;> exact .ok after
      · intro _ index _ _ after
        cases index <;> exact .early rfl after
    | label | keyword => exact .error
    | symbol s =>
      by_cases paren : s = .leftParen
      · subst paren
        apply (binary_continues between .relational).bind
        · intro inner rest _ _ following
          exact ((expect_continues (fun _ _ => rfl) following _ line).map fun _ => inner).of_strict
        · intro _ inner _ _ after
          exact .unfinished .endOfInput
      · cases s <;> first | exact .error | exact absurd rfl paren
  termination_by 8 * ts.length
  decreasing_by all_goals subst_vars; simp only [List.length_cons, Level.rank]; omega

theorem index_continues {ts : List Lexeme} (here : Remains tokens opened ts) (line : Nat) :
    Continues tokens behind (fun _ => opened) true (index line ts) (index line (ts ++ behind)) := by
  cases ts with
  | nil =>
    rw [index.eq_def]
    exact .early rfl here
  | cons l rest =>
    rw [List.cons_append]
    by_cases bracket : l.token = .symbol .leftBracket
    · obtain ⟨token, opening⟩ := l
      cases bracket
      rw [index.eq_def, index.eq_def line (_ :: (rest ++ behind))]
      apply (binary_continues here.next .relational).bind
      · intro inner rest _ _ following
        exact ((expect_continues (fun _ _ => rfl) following _ line).map
          fun _ => some inner).of_strict
      · intro _ inner _ _ after
        exact .unfinished .endOfInput
    · rw [index_of_ne (ne_cons_of_ne bracket _), index_of_ne (ne_cons_of_ne bracket _)]
      exact .ok here
  termination_by 8 * ts.length
  decreasing_by all_goals subst_vars; simp only [List.length_cons, Level.rank]; omega

end

end Grammar

end GotoLang
