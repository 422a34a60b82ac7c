import GotoLang.Proofs.EvaluationFault
import GotoLang.Proofs.StatementPhrase
import GotoLang.Proofs.StatementTree

set_option autoImplicit false

namespace GotoLang

def Expr.lines : Expr → List Nat
  | integer _ line | real _ line | var _ line => [line]
  | element _ index line => line :: index.lines
  | negate operand line => line :: operand.lines
  | binary _ left right line => line :: (left.lines ++ right.lines)

def optionLines (e? : Option Expr) : List Nat :=
  (e?.map Expr.lines).getD []

def Target.lines (target : Target) : List Nat :=
  target.line :: optionLines target.index

def WriteItem.lines : WriteItem → List Nat
  | expr e => e.lines
  | layout _ => []

/-- The lines in a statement, without those in the statements inside it. -/
def Statement.ownLines : Statement → List Nat
  | ifThen condition _ line | ifThenElse condition _ _ line => line :: condition.lines
  | declare _ size _ line => line :: optionLines size
  | assign target value => target.lines ++ value.lines
  | read targets line => line :: targets.flatMap Target.lines
  | write items line => line :: items.flatMap WriteItem.lines
  | block _ line | loop _ line | goto _ line | label _ line | empty line => [line]

def Program.lines (p : Program) : List Nat :=
  p.line :: p.all.flatMap Statement.ownLines

/-- All of the lines in a statement, and in the statements inside it, are allowed. -/
def Statement.On (allowed : Nat → Prop) (s : Statement) : Prop :=
  s.Everywhere fun t => ∀ line ∈ t.ownLines, allowed line

theorem Program.forall_mem_lines {allowed : Nat → Prop} {p : Program} :
    (∀ line ∈ p.lines, allowed line) ↔ allowed p.line ∧ ∀ s ∈ p.body, s.On allowed := by
  rw [lines, List.forall_mem_cons, List.forall_mem_flatMap, all]
  exact and_congr_right' Statement.Everywhere.sequence

namespace Grammar

abbrev OnLines (allowed : Nat → Prop) (ts : List Lexeme) : Prop :=
  ∀ l ∈ ts, allowed l.line

/-- What the rule builds and the tokens that it leaves are on allowed lines, and so is its error
unless the tokens end too early. -/
def Reports (allowed : Nat → Prop) {α : Type} {bound : Nat} (built : α → Prop)
    (result : Parse α bound) : Prop :=
  Yields (fun r => built r.value ∧ OnLines allowed r.rest)
    (fun e => e.fault = .endOfInput ∨ allowed e.line) result

variable {allowed : Nat → Prop} {α β : Type} {n m : Nat} {built : α → Prop} {later : β → Prop}

theorem Reports.bind {one : Parse α n} {next : Parsed α n → Parse β m}
    (first : Reports allowed built one)
    (rest : ∀ r, built r.value → OnLines allowed r.rest → Reports allowed later (next r)) :
    Reports allowed later (one >>= next) :=
  Yields.bind first fun r both => rest r both.1 both.2

theorem expect_reports {ts : List Lexeme} (on : OnLines allowed ts) (token : Token)
    (what : Expectation) (line : Nat) :
    Reports allowed (fun _ => True) (expect token what line ts) := by
  unfold expect
  split
  · exact Or.inl rfl
  · obtain ⟨here, behind⟩ := List.forall_mem_cons.1 on
    split
    · exact ⟨trivial, behind⟩
    · exact Or.inr here

theorem identifier_reports {ts : List Lexeme} (on : OnLines allowed ts) (line : Nat) :
    Reports allowed (fun named => allowed named.2) (identifier line ts) := by
  unfold identifier
  split
  · exact Or.inl rfl
  · exact List.forall_mem_cons.1 on
  · exact Or.inr (List.forall_mem_cons.1 on).1

theorem commaList_reports {item : (ts : List Lexeme) → Parse α ts.length}
    (each : ∀ ts, OnLines allowed ts → Reports allowed built (item ts)) {ts : List Lexeme}
    (on : OnLines allowed ts) :
    Reports allowed (fun items => ∀ a ∈ items, built a) (commaList item ts) := by
  rw [commaList.eq_def]
  apply (each ts on).bind
  intro first value behind
  have shorter := first.shorter
  dsimp only
  split
  · exact ⟨List.forall_mem_singleton.2 value, behind⟩
  · rename_i rest short taken
    obtain ⟨_, same⟩ := eq_cons_of_take? taken
    rw [same] at behind
    apply (commaList_reports each (List.forall_mem_cons.1 behind).2).bind
    intro others values after
    exact ⟨List.forall_mem_cons.2 ⟨value, values⟩, after⟩
  termination_by ts.length

abbrev ExprOn (allowed : Nat → Prop) (e : Expr) : Prop :=
  ∀ line ∈ e.lines, allowed line

mutual

theorem binary_reports {ts : List Lexeme} (on : OnLines allowed ts) (level : Level) :
    Reports allowed (ExprOn allowed) (binary level ts) := by
  rw [binary.eq_def]
  apply (operand_reports on level).bind
  intro left value behind
  have shorter := left.shorter
  apply (operations_reports behind level value).bind
  intro whole built after
  exact ⟨built, after⟩
  termination_by 8 * ts.length + 2 * level.rank + 3

theorem operations_reports {ts : List Lexeme} (on : OnLines allowed ts) (level : Level)
    {left : Expr} (value : ExprOn allowed left) :
    Reports allowed (ExprOn allowed) (operations level left ts) := by
  rw [operations.eq_def]
  split
  · exact ⟨value, on⟩
  · rename_i op line rest short found
    obtain ⟨_, rfl⟩ := eq_cons_of_operator? found
    obtain ⟨here, behind⟩ := List.forall_mem_cons.1 on
    apply (operand_reports behind level).bind
    intro right other following
    have shorter := right.shorter
    have both : ExprOn allowed (.binary op left right.value line) :=
      List.forall_mem_cons.2 ⟨here, List.forall_mem_append.2 ⟨value, other⟩⟩
    apply (operations_reports following level both).bind
    intro whole built after
    exact ⟨built, after⟩
  termination_by 8 * ts.length
  decreasing_by all_goals have := level.rank_le; omega

theorem operand_reports {ts : List Lexeme} (on : OnLines allowed ts) (level : Level) :
    Reports allowed (ExprOn allowed) (operand level ts) := by
  rw [operand.eq_def]
  cases level with
  | relational => exact binary_reports on .additive
  | additive => exact binary_reports on .multiplicative
  | multiplicative => exact unary_reports on
  termination_by 8 * ts.length + 2 * level.rank + 2
  decreasing_by all_goals subst_vars; simp only [Level.rank]; omega

theorem unary_reports {ts : List Lexeme} (on : OnLines allowed ts) :
    Reports allowed (ExprOn allowed) (unary ts) := by
  rw [unary.eq_def]
  split
  · obtain ⟨here, behind⟩ := List.forall_mem_cons.1 on
    apply (unary_reports behind).bind
    intro operand value after
    exact ⟨List.forall_mem_cons.2 ⟨here, value⟩, after⟩
  · exact term_reports on
  termination_by 8 * ts.length + 1

theorem term_reports {ts : List Lexeme} (on : OnLines allowed ts) :
    Reports allowed (ExprOn allowed) (term ts) := by
  rw [term.eq_def]
  split
  · exact Or.inl rfl
  · exact (List.forall_mem_cons.1 on).imp_left List.forall_mem_singleton.2
  · exact (List.forall_mem_cons.1 on).imp_left List.forall_mem_singleton.2
  · obtain ⟨here, behind⟩ := List.forall_mem_cons.1 on
    apply (index_reports behind _).bind
    intro index value after
    dsimp only
    split
    · exact ⟨List.forall_mem_singleton.2 here, after⟩
    · rename_i inner found
      rw [found] at value
      exact ⟨List.forall_mem_cons.2 ⟨here, value⟩, after⟩
  · obtain ⟨_, behind⟩ := List.forall_mem_cons.1 on
    apply (binary_reports behind .relational).bind
    intro inner value following
    apply (expect_reports following ..).bind
    intro _ _ after
    exact ⟨value, after⟩
  · exact Or.inr (List.forall_mem_cons.1 on).1
  termination_by 8 * ts.length
  decreasing_by all_goals subst_vars; simp only [List.length_cons, Level.rank]; omega

theorem index_reports {ts : List Lexeme} (on : OnLines allowed ts) (line : Nat) :
    Reports allowed (fun e? => ∀ line ∈ optionLines e?, allowed line) (index line ts) := by
  rw [index.eq_def]
  split
  · obtain ⟨_, behind⟩ := List.forall_mem_cons.1 on
    apply (binary_reports behind .relational).bind
    intro inner value following
    apply (expect_reports following ..).bind
    intro _ _ after
    exact ⟨value, after⟩
  · exact ⟨List.forall_mem_nil _, on⟩
  termination_by 8 * ts.length
  decreasing_by all_goals subst_vars; simp only [List.length_cons, Level.rank]; omega

end

theorem target_reports {ts : List Lexeme} (on : OnLines allowed ts) (line : Nat) :
    Reports allowed (fun t => ∀ line ∈ t.lines, allowed line) (target line ts) := by
  apply (identifier_reports on line).bind
  intro named here behind
  apply (index_reports behind _).bind
  intro index value after
  exact ⟨List.forall_mem_cons.2 ⟨here, value⟩, after⟩

theorem writeItem_reports {ts : List Lexeme} (on : OnLines allowed ts) :
    Reports allowed (fun item => ∀ line ∈ item.lines, allowed line) (writeItem ts) := by
  unfold writeItem
  split
  · exact ⟨List.forall_mem_nil _, (List.forall_mem_cons.1 on).2⟩
  · exact ⟨List.forall_mem_nil _, (List.forall_mem_cons.1 on).2⟩
  · exact ⟨List.forall_mem_nil _, (List.forall_mem_cons.1 on).2⟩
  · apply (binary_reports on .relational).bind
    intro e value after
    exact ⟨value, after⟩

theorem vectorSize_reports {ts : List Lexeme} (on : OnLines allowed ts) (line : Nat) :
    Reports allowed (fun e? => ∀ line ∈ optionLines e?, allowed line) (vectorSize line ts) := by
  unfold vectorSize
  split
  · apply (expect_reports (List.forall_mem_cons.1 on).2 ..).bind
    intro _ _ behind
    apply (binary_reports behind .relational).bind
    intro size value behind
    apply (expect_reports behind ..).bind
    intro _ _ behind
    apply (expect_reports behind ..).bind
    intro _ _ after
    exact ⟨value, after⟩
  · exact ⟨List.forall_mem_nil _, on⟩

theorem elementType_reports {ts : List Lexeme} (on : OnLines allowed ts) (line : Nat) :
    Reports allowed (fun _ => True) (elementType line ts) := by
  unfold elementType
  split
  · exact Or.inl rfl
  · exact ⟨trivial, (List.forall_mem_cons.1 on).2⟩
  · exact ⟨trivial, (List.forall_mem_cons.1 on).2⟩
  · exact Or.inr (List.forall_mem_cons.1 on).1

theorem declaredName_reports (line : Nat) (ts : List Lexeme) (on : OnLines allowed ts) :
    Reports allowed (fun _ => True) (declaredName line ts) := by
  apply (identifier_reports on line).bind
  intro _ _ after
  exact ⟨trivial, after⟩

theorem declaration_reports {ts : List Lexeme} (on : OnLines allowed ts) :
    Reports allowed (Statement.On allowed) (declaration ts) := by
  cases ts with
  | nil =>
    rw [declaration, commaList.eq_def]
    exact Or.inl rfl
  | cons l rest =>
    apply (commaList_reports (declaredName_reports _) on).bind
    intro names _ behind
    apply (expect_reports behind ..).bind
    intro _ _ behind
    apply (vectorSize_reports behind _).bind
    intro size value behind
    apply (elementType_reports behind _).bind
    intro type _ after
    have here : allowed l.line := (List.forall_mem_cons.1 on).1
    exact ⟨(Statement.Everywhere.leaf rfl).2 (List.forall_mem_cons.2 ⟨here, value⟩), after⟩

theorem assignment_reports {ts : List Lexeme} (on : OnLines allowed ts) (line : Nat) :
    Reports allowed (Statement.On allowed) (assignment line ts) := by
  apply (target_reports on line).bind
  intro target place behind
  have valued : Reports allowed (ExprOn allowed) (assigned line target.rest) := by
    apply (expect_reports behind ..).bind
    intro _ _ behind
    apply (binary_reports behind .relational).bind
    intro e value after
    exact ⟨value, after⟩
  apply valued.bind
  intro e value after
  exact ⟨(Statement.Everywhere.leaf rfl).2 (List.forall_mem_append.2 ⟨place, value⟩), after⟩

theorem separator_reports {ts : List Lexeme} (on : OnLines allowed ts) {opened : Nat}
    (here : allowed opened) : Reports allowed (fun _ => True) (separator opened ts) := by
  unfold separator
  split
  · exact Or.inr here
  · exact ⟨trivial, (List.forall_mem_cons.1 on).2⟩
  · exact ⟨trivial, (List.forall_mem_cons.1 on).2⟩
  · exact Or.inr (List.forall_mem_cons.1 on).1

mutual

theorem statement_reports {ts : List Lexeme} (on : OnLines allowed ts) :
    Reports allowed (Statement.On allowed) (statement ts) := by
  rw [statement.eq_def]
  split
  · exact Or.inl rfl
  · obtain ⟨here, behind⟩ := List.forall_mem_cons.1 on
    apply (body_reports behind here).bind
    intro body inside after
    exact ⟨Statement.Everywhere.block.2 ⟨List.forall_mem_singleton.2 here, inside⟩, after⟩
  · obtain ⟨here, behind⟩ := List.forall_mem_cons.1 on
    apply (body_reports behind here).bind
    intro body inside after
    exact ⟨Statement.Everywhere.loop.2 ⟨List.forall_mem_singleton.2 here, inside⟩, after⟩
  · obtain ⟨here, behind⟩ := List.forall_mem_cons.1 on
    apply (conditional_reports behind here).bind
    intro conditional inside after
    exact ⟨inside, after⟩
  · obtain ⟨here, behind⟩ := List.forall_mem_cons.1 on
    apply (identifier_reports behind _).bind
    intro label _ after
    exact ⟨(Statement.Everywhere.leaf rfl).2 (List.forall_mem_singleton.2 here), after⟩
  · obtain ⟨here, behind⟩ := List.forall_mem_cons.1 on
    apply (commaList_reports (fun ts on => target_reports on _) behind).bind
    intro targets places after
    have lines := List.forall_mem_cons.2 ⟨here, List.forall_mem_flatMap.2 places⟩
    exact ⟨(Statement.Everywhere.leaf rfl).2 lines, after⟩
  · obtain ⟨here, behind⟩ := List.forall_mem_cons.1 on
    apply (commaList_reports (fun ts on => writeItem_reports on) behind).bind
    intro items values after
    have lines := List.forall_mem_cons.2 ⟨here, List.forall_mem_flatMap.2 values⟩
    exact ⟨(Statement.Everywhere.leaf rfl).2 lines, after⟩
  · apply (assignment_reports on _).bind
    intro assignment inside after
    exact ⟨inside, after⟩
  · have here := (List.forall_mem_cons.1 on).1
    split
    · exact ⟨(Statement.Everywhere.leaf rfl).2 (List.forall_mem_singleton.2 here), on⟩
    · exact Or.inr here
  termination_by 3 * ts.length

theorem conditional_reports {ts : List Lexeme} (on : OnLines allowed ts) {line : Nat}
    (here : allowed line) : Reports allowed (Statement.On allowed) (conditional line ts) := by
  rw [conditional.eq_def]
  apply (binary_reports on .relational).bind
  intro condition value behind
  have shorter := condition.shorter
  apply (expect_reports behind ..).bind
  intro keyword _ behind
  have shorterStill := keyword.shorter
  apply (statement_reports behind).bind
  intro branch chosen behind
  have shortest := branch.shorter
  have tested := List.forall_mem_cons.2 ⟨here, value⟩
  dsimp only
  split
  · exact ⟨Statement.Everywhere.ifThen.2 ⟨tested, chosen⟩, behind⟩
  · rename_i taken
    obtain ⟨_, same⟩ := eq_cons_of_take? taken
    rw [same] at behind
    apply (statement_reports (List.forall_mem_cons.1 behind).2).bind
    intro other replaced after
    exact ⟨Statement.Everywhere.ifThenElse.2 ⟨tested, chosen, replaced⟩, after⟩
  termination_by 3 * ts.length

theorem item_reports {ts : List Lexeme} (on : OnLines allowed ts) :
    Reports allowed (fun built => ∀ s ∈ built, s.On allowed) (item ts) := by
  rw [item.eq_def]
  split
  · rename_i name line rest short marked
    have both : allowed line ∧ OnLines allowed rest := by
      rcases eq_cons_of_label? marked with rfl | ⟨_, _, rfl⟩
      · exact List.forall_mem_cons.1 on
      · exact (List.forall_mem_cons.1 on).imp_right fun behind => (List.forall_mem_cons.1 behind).2
    apply (item_reports both.2).bind
    intro labelled inside after
    have marker : (Statement.label name line).On allowed :=
      (Statement.Everywhere.leaf rfl).2 (List.forall_mem_singleton.2 both.1)
    exact ⟨List.forall_mem_cons.2 ⟨marker, inside⟩, after⟩
  · split
    · apply (declaration_reports on).bind
      intro declared inside after
      exact ⟨List.forall_mem_singleton.2 inside, after⟩
    · apply (statement_reports on).bind
      intro single inside after
      exact ⟨List.forall_mem_singleton.2 inside, after⟩
  termination_by 3 * ts.length + 1

theorem body_reports {ts : List Lexeme} (on : OnLines allowed ts) {opened : Nat}
    (here : allowed opened) :
    Reports allowed (fun body => ∀ s ∈ body, s.On allowed) (body opened ts) := by
  rw [body.eq_def]
  split
  · exact Or.inr here
  · exact ⟨List.forall_mem_nil _, (List.forall_mem_cons.1 on).2⟩
  · apply (item_reports on).bind
    intro first inside behind
    have shorter := first.shorter
    apply (separator_reports behind here).bind
    intro closed _ behind
    have shorterStill := closed.shorter
    dsimp only
    split
    · exact ⟨inside, behind⟩
    · apply (body_reports behind here).bind
      intro others alike after
      exact ⟨List.forall_mem_append.2 ⟨inside, alike⟩, after⟩
  termination_by 3 * ts.length + 2

end

theorem dropSemicolons_suffix (ts : List Lexeme) : dropSemicolons ts <:+ ts := by
  induction ts with
  | nil => exact List.suffix_rfl
  | cons l rest ih =>
    unfold dropSemicolons
    split
    · rename_i same
      cases same
      exact ih.trans (List.suffix_cons _ rest)
    · exact List.suffix_rfl

theorem wholeProgram_lines {ts : List Lexeme} (on : OnLines allowed ts)
    (filled : ts = [] → allowed 1) :
    Yields (fun p => ∀ line ∈ p.lines, allowed line)
      (fun e => e.fault = .endOfInput ∨ allowed e.line) (wholeProgram ts) := by
  unfold wholeProgram
  split
  · exact Or.inr (filled rfl)
  · obtain ⟨here, behind⟩ := List.forall_mem_cons.1 on
    apply Yields.bind (body_reports behind here)
    intro body both
    obtain ⟨inside, after⟩ := both
    dsimp only
    split
    · exact Program.forall_mem_lines.2 ⟨here, inside⟩
    · rename_i l rest trails
      have suffix := dropSemicolons_suffix body.rest
      rw [trails] at suffix
      exact Or.inr (after l (suffix.subset List.mem_cons_self))
  · exact Or.inr (List.forall_mem_cons.1 on).1

theorem lastLine_allowed {ts : List Lexeme} (on : OnLines allowed ts)
    (filled : ts = [] → allowed 1) : allowed (lastLine ts) := by
  unfold lastLine
  split
  · rename_i l last
    exact on l (List.mem_of_getLast? last)
  · rename_i none
    exact filled (List.getLast?_eq_none_iff.1 none)

/-- The lines of a program are lines of its tokens, and so is the line of an error. Only where there
are no tokens at all it is the first line. -/
theorem program_lines {ts : List Lexeme} (on : OnLines allowed ts) (filled : ts = [] → allowed 1) :
    Yields (fun p => ∀ line ∈ p.lines, allowed line) (fun e => allowed e.line) (program ts) := by
  have whole := wholeProgram_lines on filled
  unfold program
  split
  · exact lastLine_allowed on filled
  · rename_i other
    generalize wholeProgram ts = result at whole other ⊢
    cases result with
    | ok p => exact whole
    | error e =>
      obtain ⟨fault, line⟩ := e
      rcases whole with early | reported
      · cases early
        exact absurd rfl (other line)
      · exact reported

end Grammar

end GotoLang
