import GotoLang.Proofs.CutExpression
import GotoLang.Proofs.PhraseExtent

set_option autoImplicit false

namespace GotoLang.Grammar

/-- A rule without the bound on the tokens that it leaves. -/
abbrev Reader := StateT (List Lexeme) (Except SourceError)

def Parse.unbounded {α : Type} {bound : Nat} (parse : Parse α bound) :
    Except SourceError (α × List Lexeme) :=
  parse.map fun r => (r.value, r.rest)

def reading {α : Type} {bound : List Lexeme → Nat}
    (rule : (ts : List Lexeme) → Parse α (bound ts)) : Reader α :=
  fun ts => (rule ts).unbounded

section

variable {α β : Type} {n m : Nat}

theorem Parse.Gives.unbounded {parse : Parse α n} {a : α} {rest : List Lexeme}
    (gives : parse.Gives a rest) : parse.unbounded = .ok (a, rest) := by
  obtain ⟨_, rfl⟩ := gives
  rfl

theorem Parse.gives_of_unbounded {parse : Parse α n} {a : α} {rest : List Lexeme}
    (read : parse.unbounded = .ok (a, rest)) : parse.Gives a rest := by
  cases parse with
  | error e => cases read
  | ok r =>
    cases read
    exact ⟨r.shorter, rfl⟩

theorem Parse.eq_error_of_unbounded {parse : Parse α n} {e : SourceError}
    (failed : parse.unbounded = .error e) : parse = .error e := by
  cases parse with
  | error e =>
    cases failed
    rfl
  | ok r => cases failed

/-- A rule after another one is a reader after another one. -/
theorem Parse.unbounded_bind {one : Parse α n} {next : Parsed α n → Parse β m} {read : Reader α}
    {second : α → Reader β} {ts : List Lexeme} (first : one.unbounded = read ts)
    (same : ∀ a rest shorter, (next ⟨a, rest, shorter⟩).unbounded = second a rest) :
    Parse.unbounded (one >>= next) = (read >>= second) ts := by
  show _ = read ts >>= fun r => second r.1 r.2
  rw [← first]
  cases one with
  | error e => rfl
  | ok r => exact same r.value r.rest r.shorter

theorem bind_of_ok {read : Reader α} {ts rest : List Lexeme} {a : α}
    (found : read ts = .ok (a, rest)) (second : α → Reader β) :
    (read >>= second) ts = second a rest := by
  show read ts >>= _ = _
  rw [found]
  rfl

theorem bind_of_error {read : Reader α} {ts : List Lexeme} {e : SourceError}
    (failed : read ts = .error e) (second : α → Reader β) :
    (read >>= second) ts = .error e := by
  show read ts >>= _ = _
  rw [failed]
  rfl

end

/-- The tokens are the first ones of a phrase. -/
def Begins {α : Type} (whole : List Lexeme → α → Prop) (ts : List Lexeme) : Prop :=
  ∃ more a, whole (ts ++ more) a

/-- The error says that something else was called for where this token stands. -/
def Blames (e : SourceError) (l : Lexeme) : Prop :=
  ∃ what, e = ⟨.expected what l.token, l.line⟩

/-- What a reader comes to. It takes a phrase and stops at the token behind it, or all of the tokens
begin a phrase and it calls for more, or it reports a token, and those before it begin a phrase. The
tokens behind the one at which it stops make no difference. -/
inductive Verdict {α : Type} (read : Reader α) (whole : List Lexeme → α → Prop)
    (ts : List Lexeme) : Prop
  | takes {front rest : List Lexeme} {a : α} (split : ts = front ++ rest) (phrase : whole front a)
      (again : ∀ us, us.head? = rest.head? → read (front ++ us) = .ok (a, us))
  | ended {line : Nat} (begins : Begins whole ts) (failed : read ts = .error ⟨.endOfInput, line⟩)
  | stuck {front after : List Lexeme} {l : Lexeme} {e : SourceError}
      (split : ts = front ++ l :: after) (begins : Begins whole front) (blames : Blames e l)
      (again : ∀ us, read (front ++ l :: us) = .error e)

section

variable {α β : Type} {read other : Reader α} {second : α → Reader β} {ts : List Lexeme}
  {whole grown : List Lexeme → α → Prop} {both : List Lexeme → β → Prop}

theorem head?_append_congr {front rest other : List Lexeme} (same : other.head? = rest.head?) :
    (front ++ other).head? = (front ++ rest).head? := by
  rw [List.head?_append, List.head?_append, same]

namespace Verdict

/-- There is no fault where there are no tokens. -/
theorem begins_nil (verdict : Verdict read whole []) : Begins whole [] := by
  cases verdict with
  | takes split phrase _ =>
    obtain ⟨rfl, rfl⟩ := List.append_eq_nil_iff.1 split.symm
    exact ⟨[], _, phrase⟩
  | ended begins _ => exact begins
  | stuck split _ _ _ => exact absurd split.symm (List.append_ne_nil_of_right_ne_nil _ nofun)

/-- The reader takes no token. -/
theorem stays {a : α} (phrase : whole [] a)
    (again : ∀ us, us.head? = ts.head? → read us = .ok (a, us)) : Verdict read whole ts :=
  @takes _ _ _ _ [] ts a rfl phrase again

theorem pure {a : α} (phrase : whole [] a) : Verdict (Pure.pure a) whole ts :=
  stays phrase fun _ _ => rfl

/-- The reader does not allow the first token. -/
theorem refuses {l : Lexeme} {rest : List Lexeme} (what : Expectation) (begins : Begins whole [])
    (again : ∀ us, read (l :: us) = .error ⟨.expected what l.token, l.line⟩) :
    Verdict read whole (l :: rest) :=
  @stuck _ _ _ _ [] rest l _ rfl begins ⟨what, rfl⟩ again

theorem mono (verdict : Verdict read whole ts) (grow : ∀ front a, whole front a → grown front a) :
    Verdict read grown ts := by
  have begins : ∀ front, Begins whole front → Begins grown front :=
    fun _ ⟨more, a, phrase⟩ => ⟨more, a, grow _ a phrase⟩
  cases verdict with
  | takes split phrase again => exact .takes split (grow _ _ phrase) again
  | ended started failed => exact .ended (begins _ started) failed
  | stuck split started blames again => exact .stuck split (begins _ started) blames again

/-- A reader that passes the front and goes on as another one. Whether it does may depend on the
token behind the front. -/
theorem behind {front rest : List Lexeme}
    (verdict : Verdict other (fun tail a => whole (front ++ tail) a) rest)
    (goesOn : ∀ us, us.head? = rest.head? → read (front ++ us) = other us) :
    Verdict read whole (front ++ rest) := by
  cases verdict with
  | takes split phrase again =>
    subst split
    refine .takes (List.append_assoc ..).symm phrase fun us head => ?_
    rw [List.append_assoc, goesOn _ (head?_append_congr head), again us head]
  | ended begins failed =>
    obtain ⟨more, a, phrase⟩ := begins
    exact .ended ⟨more, a, (List.append_assoc ..).symm ▸ phrase⟩ ((goesOn rest rfl).trans failed)
  | @stuck inside after l e split begins blames again =>
    subst split
    obtain ⟨more, a, phrase⟩ := begins
    refine .stuck (List.append_assoc ..).symm ⟨more, a, (List.append_assoc ..).symm ▸ phrase⟩
      blames fun us => ?_
    have head : (inside ++ l :: us).head? = (inside ++ l :: after).head? := head?_append_congr rfl
    rw [List.append_assoc, goesOn _ head, again us]

/-- The reader takes the first token and goes on as another one. -/
theorem cons {l : Lexeme} {rest : List Lexeme}
    (verdict : Verdict other (fun tail a => whole (l :: tail) a) rest)
    (goesOn : ∀ us, read (l :: us) = other us) : Verdict read whole (l :: rest) :=
  @behind _ read other whole [l] rest verdict fun us _ => goesOn us

/-- Readers that agree on all tokens with the same first one come to the same. -/
theorem congr (verdict : Verdict other whole ts)
    (same : ∀ us, us.head? = ts.head? → read us = other us) : Verdict read whole ts :=
  @behind _ read other whole [] ts verdict same

/-- One reader after another. The second one starts behind a phrase of the first. -/
theorem bind (first : Verdict read whole ts)
    (next : ∀ front a rest, whole front a → rest.length ≤ ts.length →
      Verdict (second a) (fun tail b => both (front ++ tail) b) rest) :
    Verdict (read >>= second) both ts := by
  -- The second reader goes on behind a phrase of the first one, as its verdict on no tokens shows.
  have begins : ∀ front, Begins whole front → Begins both front := by
    rintro front ⟨more, a, phrase⟩
    obtain ⟨others, b, ends⟩ := (next _ a [] phrase (Nat.zero_le _)).begins_nil
    exact ⟨more ++ others, b, by simpa only [List.append_assoc, List.nil_append] using ends⟩
  cases first with
  | takes split phrase again =>
    subst split
    refine (next _ _ _ phrase (List.suffix_append ..).length_le).behind fun us head => ?_
    exact bind_of_ok (again us head) second
  | ended started failed => exact .ended (begins _ started) (bind_of_error failed second)
  | stuck split started blames again =>
    exact .stuck split (begins _ started) blames fun us => bind_of_error (again us) second

end Verdict

end

def IsToken (token : Token) (ts : List Lexeme) (_ : Unit) : Prop :=
  ∃ line, ts = [⟨token, line⟩]

theorem expect_verdict (token : Token) (what : Expectation) (line : Nat) (ts : List Lexeme) :
    Verdict (reading (expect token what line)) (IsToken token) ts := by
  have starts : Begins (IsToken token) [] := ⟨[⟨token, line⟩], (), line, rfl⟩
  cases ts with
  | nil => exact .ended starts rfl
  | cons l rest =>
    obtain ⟨other, here⟩ := l
    by_cases same : other = token
    · subst same
      refine @Verdict.takes _ _ _ _ [⟨other, here⟩] rest () rfl ⟨here, rfl⟩ fun us _ => ?_
      exact (expect_gives other what line here us).unbounded
    · refine .refuses what starts fun us => ?_
      simp only [reading, expect, if_neg same]
      rfl

/-- Tokens with another first one do not begin with this one either. -/
theorem ne_cons_of_head {token : Token} {ts us : List Lexeme}
    (other : ¬ ∃ line rest, ts = ⟨token, line⟩ :: rest) (head : us.head? = ts.head?) :
    ∀ line rest, us ≠ ⟨token, line⟩ :: rest := by
  rintro line rest rfl
  exact other ⟨line, List.head?_eq_some_iff.1 head.symm⟩

theorem operator?_eq_none_of_head {level : Level} {ts us : List Lexeme}
    (absent : operator? level ts = none) (head : us.head? = ts.head?) :
    operator? level us = none := by
  cases found : operator? level us with
  | none => rfl
  | some r =>
    obtain ⟨⟨op, line⟩, rest, shorter⟩ := r
    obtain ⟨rfl, rfl⟩ := eq_cons_of_operator? found
    obtain ⟨rest, rfl⟩ := List.head?_eq_some_iff.1 head.symm
    rw [operator?_token] at absent
    cases absent

/-- A phrase that takes all of the tokens takes them whatever follows. -/
theorem TakesFront.whole {phrase : List Lexeme → List Lexeme → Prop} {ts : List Lexeme}
    (takes : TakesFront phrase ts []) (after : List Lexeme) : phrase (ts ++ after) after := by
  obtain ⟨front, same, _, again⟩ := takes
  rw [same, List.append_nil]
  exact again after

abbrev IsExpr (tier : Tier) (ts : List Lexeme) (e : Expr) : Prop :=
  ExprPhrase tier ts e []

theorem IsExpr.behind {tier : Tier} {ts : List Lexeme} {e : Expr} (phrase : IsExpr tier ts e)
    (after : List Lexeme) : ExprPhrase tier (ts ++ after) e after :=
  phrase.takesFront.whole after

theorem reading_binary (level : Level) :
    reading (binary level) =
      reading (operand level) >>= fun left => reading (operations level left) := by
  funext ts
  rw [reading, binary.eq_def]
  refine Parse.unbounded_bind rfl fun left rest _ => ?_
  dsimp only
  exact (Parse.unbounded_bind rfl fun _ _ _ => rfl).trans (congrFun (bind_pure _) rest)

theorem reading_operations_of_none {level : Level} {left : Expr} {ts : List Lexeme}
    (absent : operator? level ts = none) :
    reading (operations level left) ts = .ok (left, ts) := by
  rw [reading, operations.eq_def, absent]
  rfl

theorem reading_operations_operator (op : BinaryOperator) (left : Expr) (line : Nat)
    (rest : List Lexeme) :
    reading (operations op.level left) (⟨op.token, line⟩ :: rest) =
      (reading (operand op.level) >>= fun right =>
        reading (operations op.level (.binary op left right line))) rest := by
  rw [reading, operations.eq_def, operator?_token]
  refine Parse.unbounded_bind rfl fun right rest _ => ?_
  dsimp only
  exact (Parse.unbounded_bind rfl fun _ _ _ => rfl).trans (congrFun (bind_pure _) rest)

theorem reading_operand (level : Level) :
    reading (operand level) =
      match level with
      | .relational => reading (binary .additive)
      | .additive => reading (binary .multiplicative)
      | .multiplicative => reading unary := by
  funext ts
  rw [reading, operand.eq_def]
  cases level <;> rfl

theorem reading_unary_minus (line : Nat) (rest : List Lexeme) :
    reading unary (⟨.symbol .minus, line⟩ :: rest) =
      (reading unary >>= fun e => Pure.pure (.negate e line)) rest := by
  rw [reading, unary.eq_def]
  exact Parse.unbounded_bind rfl fun _ _ _ => rfl

theorem reading_index_bracket (line opened : Nat) (rest : List Lexeme) :
    reading (index line) (⟨.symbol .leftBracket, opened⟩ :: rest) =
      (reading (binary .relational) >>= fun e =>
        reading (expect (.symbol .rightBracket) .bracketAfterIndex line) >>= fun _ =>
          Pure.pure (some e)) rest := by
  rw [reading, index.eq_def]
  exact Parse.unbounded_bind rfl fun _ _ _ => Parse.unbounded_bind rfl fun _ _ _ => rfl

theorem reading_term_paren (line : Nat) (rest : List Lexeme) :
    reading term (⟨.symbol .leftParen, line⟩ :: rest) =
      (reading (binary .relational) >>= fun e =>
        reading (expect (.symbol .rightParen) .parenAfterExpression line) >>= fun _ =>
          Pure.pure e) rest := by
  rw [reading, term.eq_def]
  exact Parse.unbounded_bind rfl fun _ _ _ => Parse.unbounded_bind rfl fun _ _ _ => rfl

theorem reading_term_name (name : String) (line : Nat) (rest : List Lexeme) :
    reading term (⟨.identifier name, line⟩ :: rest) =
      (reading (index line) >>= fun e? =>
        Pure.pure (e?.elim (.var name line) (.element name · line))) rest := by
  rw [reading, term.eq_def]
  refine Parse.unbounded_bind rfl fun e? _ _ => ?_
  cases e? <;> rfl

theorem begins_term : Begins (IsExpr .term) [] :=
  ⟨[⟨.integer 0, 0⟩], .integer 0 0, .integer⟩

/- The recursion is that of the rules. A reader that goes on behind a phrase has no more tokens
than the one before it, and behind an operator or a bracket there are fewer. -/

mutual

theorem binary_verdict (level : Level) (ts : List Lexeme) :
    Verdict (reading (binary level)) (IsExpr (.binary level)) ts := by
  rw [reading_binary]
  refine (operand_verdict level ts).bind fun front left rest phrase _ => ?_
  exact operations_verdict (.operand phrase) rest
  termination_by 8 * ts.length + 2 * level.rank + 3

/-- The operations go on with an expression of their level. -/
theorem operations_verdict {level : Level} {left : Expr} {front : List Lexeme}
    (before : IsExpr (.binary level) front left) (ts : List Lexeme) :
    Verdict (reading (operations level left))
      (fun tail e => IsExpr (.binary level) (front ++ tail) e) ts := by
  cases found : operator? level ts with
  | none =>
    have nothing : IsExpr (.binary level) (front ++ []) left :=
      (List.append_nil front).symm ▸ before
    exact .stays nothing fun us head =>
      reading_operations_of_none (operator?_eq_none_of_head found head)
  | some r =>
    obtain ⟨⟨op, line⟩, rest, shorter⟩ := r
    obtain ⟨rfl, rfl⟩ := eq_cons_of_operator? found
    refine .cons ?_ (reading_operations_operator op left line)
    refine (operand_verdict op.level rest).bind fun middle right rest phrase _ => ?_
    have grown : IsExpr (.binary op.level) (front ++ ⟨op.token, line⟩ :: middle)
        (.binary op left right line) := .operation rfl (before.behind _) phrase
    refine (operations_verdict grown rest).mono fun tail e whole => ?_
    rw [List.append_assoc] at whole
    exact whole
  termination_by 8 * ts.length
  decreasing_by
    all_goals
      have := level.rank_le
      subst_vars
      simp only [List.length_cons] at *
      omega

theorem operand_verdict (level : Level) (ts : List Lexeme) :
    Verdict (reading (operand level)) (IsExpr level.operands) ts := by
  rw [reading_operand]
  cases level with
  | relational => exact binary_verdict .additive ts
  | additive => exact binary_verdict .multiplicative ts
  | multiplicative => exact unary_verdict ts
  termination_by 8 * ts.length + 2 * level.rank + 2
  decreasing_by all_goals subst_vars; simp only [Level.rank]; omega

theorem unary_verdict (ts : List Lexeme) : Verdict (reading unary) (IsExpr .unary) ts := by
  by_cases minus : ∃ line rest, ts = ⟨.symbol .minus, line⟩ :: rest
  · obtain ⟨line, rest, rfl⟩ := minus
    refine .cons ?_ (reading_unary_minus line)
    refine (unary_verdict rest).bind fun front e _ phrase _ => .pure ?_
    rw [List.append_nil]
    exact .negate phrase
  · refine ((term_verdict ts).mono fun _ _ => .single).congr fun us head => ?_
    rw [reading, unary_of_ne (ne_cons_of_head minus head)]
    rfl
  termination_by 8 * ts.length + 1
  decreasing_by all_goals subst_vars; simp only [List.length_cons] at *; omega

theorem term_verdict (ts : List Lexeme) : Verdict (reading term) (IsExpr .term) ts := by
  cases ts with
  | nil =>
    have runsOut : reading term [] = .error ⟨.endOfInput, 0⟩ := by
      rw [reading, term.eq_def]
      rfl
    exact .ended begins_term runsOut
  | cons l rest =>
    obtain ⟨token, line⟩ := l
    cases token with
    | integer n =>
      have literal : IsExpr .term [⟨.integer n, line⟩] (.integer n line) := .integer
      refine .cons (.pure literal) fun us => ?_
      rw [reading, term.eq_def]
      rfl
    | real r =>
      have literal : IsExpr .term [⟨.real r, line⟩] (.real r line) := .real
      refine .cons (.pure literal) fun us => ?_
      rw [reading, term.eq_def]
      rfl
    | identifier name =>
      refine .cons ?_ (reading_term_name name line)
      refine (index_verdict line rest).bind fun front e? _ phrase _ => .pure ?_
      rw [List.append_nil]
      cases phrase with
      | absent => exact .var
      | present inner => exact .element inner
    | symbol s =>
      by_cases paren : s = .leftParen
      · subst paren
        refine .cons ?_ (reading_term_paren line)
        refine (binary_verdict .relational rest).bind fun front e rest phrase _ => ?_
        refine (expect_verdict ..).bind fun closing _ _ taken _ => .pure ?_
        obtain ⟨closed, rfl⟩ := taken
        exact .parens (phrase.behind _)
      · refine .refuses .expression begins_term fun us => ?_
        rw [reading, term.eq_def]
        cases s <;> first | rfl | exact absurd rfl paren
    | label | keyword =>
      refine .refuses .expression begins_term fun us => ?_
      rw [reading, term.eq_def]
      rfl
  termination_by 8 * ts.length
  decreasing_by all_goals subst_vars; simp only [List.length_cons, Level.rank]; omega

theorem index_verdict (line : Nat) (ts : List Lexeme) :
    Verdict (reading (index line)) (fun ts e? => IndexPhrase ts e? []) ts := by
  by_cases bracket : ∃ opened rest, ts = ⟨.symbol .leftBracket, opened⟩ :: rest
  · obtain ⟨opened, rest, rfl⟩ := bracket
    refine .cons ?_ (reading_index_bracket line opened)
    refine (binary_verdict .relational rest).bind fun front e rest phrase _ => ?_
    refine (expect_verdict ..).bind fun closing _ _ taken _ => .pure ?_
    obtain ⟨closed, rfl⟩ := taken
    exact .present (phrase.behind _)
  · refine .stays .absent fun us head => ?_
    rw [reading, index_of_ne (ne_cons_of_head bracket head)]
    rfl
  termination_by 8 * ts.length
  decreasing_by all_goals subst_vars; simp only [List.length_cons, Level.rank]; omega

end

end GotoLang.Grammar
