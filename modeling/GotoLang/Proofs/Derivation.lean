import GotoLang.Grammar.Statement

set_option autoImplicit false

namespace GotoLang.Grammar

inductive Form where
  | statement
  | conditional (line : Nat)
  | item
  | body (opened : Nat)

/-- A rule takes the first tokens of a list, builds statements and leaves the other tokens. Rules
that are not part of the recursion stand as equations. -/
inductive Derives : Form → List Lexeme → List Statement → List Lexeme → Prop
  | block {line : Nat} {rest after : List Lexeme} {body : List Statement}
      (inner : Derives (.body line) rest body after) :
      Derives .statement (⟨.keyword .begin, line⟩ :: rest) [.block body line] after
  | loop {line : Nat} {rest after : List Lexeme} {body : List Statement}
      (inner : Derives (.body line) rest body after) :
      Derives .statement (⟨.keyword .loop, line⟩ :: rest) [.loop body line] after
  | conditional {line : Nat} {rest after : List Lexeme} {s : Statement}
      (inner : Derives (.conditional line) rest [s] after) :
      Derives .statement (⟨.keyword .if_, line⟩ :: rest) [s] after
  | goto {line : Nat} {rest : List Lexeme} {label : Parsed (String × Nat) rest.length}
      (named : identifier line rest = .ok label) :
      Derives .statement (⟨.keyword .goto, line⟩ :: rest) [.goto label.value.1 line] label.rest
  | read {line : Nat} {rest : List Lexeme} {targets : Parsed (List Target) rest.length}
      (listed : commaList (target line) rest = .ok targets) :
      Derives .statement (⟨.keyword .read, line⟩ :: rest) [.read targets.value line] targets.rest
  | write {line : Nat} {rest : List Lexeme} {items : Parsed (List WriteItem) rest.length}
      (listed : commaList writeItem rest = .ok items) :
      Derives .statement (⟨.keyword .write, line⟩ :: rest) [.write items.value line] items.rest
  | assign {name : String} {line : Nat} {rest : List Lexeme}
      {place : Parsed Target (⟨.identifier name, line⟩ :: rest : List Lexeme).length}
      {value : Parsed Expr place.rest.length}
      (placed : target line (⟨.identifier name, line⟩ :: rest) = .ok place)
      (valued : assigned line place.rest = .ok value) :
      Derives .statement (⟨.identifier name, line⟩ :: rest) [.assign place.value value.value]
        value.rest
  | empty {l : Lexeme} {rest : List Lexeme} (follows : followsEmpty l.token = true) :
      Derives .statement (l :: rest) [.empty l.line] (l :: rest)
  | ifThen {line : Nat} {ts after : List Lexeme} {branch : Statement}
      {condition : Parsed Expr ts.length} {keyword : Parsed Unit condition.rest.length}
      (tested : expression ts = .ok condition)
      (joined : expect (.keyword .then_) .thenAfterCondition line condition.rest = .ok keyword)
      (chosen : Derives .statement keyword.rest [branch] after)
      (alone : take? (.keyword .else_) after = none) :
      Derives (.conditional line) ts [.ifThen condition.value branch line] after
  | ifThenElse {line : Nat} {ts between after : List Lexeme} {branch other : Statement}
      {condition : Parsed Expr ts.length} {keyword : Parsed Unit condition.rest.length}
      {otherwise : Parsed Unit between.length}
      (tested : expression ts = .ok condition)
      (joined : expect (.keyword .then_) .thenAfterCondition line condition.rest = .ok keyword)
      (chosen : Derives .statement keyword.rest [branch] between)
      (divided : take? (.keyword .else_) between = some otherwise)
      (replaced : Derives .statement otherwise.rest [other] after) :
      Derives (.conditional line) ts [.ifThenElse condition.value branch other line] after
  | labelled {ts after : List Lexeme} {labelled : List Statement}
      {mark : Parsed (String × Nat) ts.length} (marked : label? ts = some mark)
      (inner : Derives .item mark.rest labelled after) :
      Derives .item ts (.label mark.value.1 mark.value.2 :: labelled) after
  | declared {ts : List Lexeme} {declared : Parsed Statement ts.length}
      (unmarked : label? ts = none) (starts : startsDeclaration ts = true)
      (inner : declaration ts = .ok declared) :
      Derives .item ts [declared.value] declared.rest
  | single {ts after : List Lexeme} {s : Statement} (unmarked : label? ts = none)
      (starts : startsDeclaration ts = false) (inner : Derives .statement ts [s] after) :
      Derives .item ts [s] after
  | close {opened line : Nat} {rest : List Lexeme} :
      Derives (.body opened) (⟨.keyword .end_, line⟩ :: rest) [] rest
  | last {opened : Nat} {ts between : List Lexeme} {first : List Statement}
      {closed : Parsed Bool between.length}
      (more : ∀ line rest, ts ≠ ⟨.keyword .end_, line⟩ :: rest)
      (inner : Derives .item ts first between) (separated : separator opened between = .ok closed)
      (ends : closed.value = true) :
      Derives (.body opened) ts first closed.rest
  | cons {opened : Nat} {ts between after : List Lexeme} {first others : List Statement}
      {closed : Parsed Bool between.length}
      (more : ∀ line rest, ts ≠ ⟨.keyword .end_, line⟩ :: rest)
      (inner : Derives .item ts first between) (separated : separator opened between = .ok closed)
      (goesOn : closed.value = false) (rest : Derives (.body opened) closed.rest others after) :
      Derives (.body opened) ts (first ++ others) after

/-- A sequence of rules succeeds exactly when each of them does. -/
theorem bind_eq_ok {ε α β : Type} {first : Except ε α} {next : α → Except ε β} {b : β} :
    (first >>= next) = .ok b ↔ ∃ a, first = .ok a ∧ next a = .ok b := by
  constructor
  · intro found
    cases first with
    | error e => cases found
    | ok a => exact ⟨a, rfl, found⟩
  · rintro ⟨a, rfl, found⟩
    exact found

theorem pure_eq_ok {ε α : Type} {a b : α} : (pure a : Except ε α) = .ok b ↔ a = b :=
  ⟨fun same => Except.ok.inj same, fun same => congrArg Except.ok same⟩

mutual

theorem statement_derives {ts : List Lexeme} {r : Parsed Statement (ts.length + 1)}
    (parsed : statement ts = .ok r) : Derives .statement ts [r.value] r.rest := by
  rw [statement.eq_def] at parsed
  split at parsed
  · cases parsed
  · obtain ⟨inner, found, built⟩ := bind_eq_ok.1 parsed
    cases pure_eq_ok.1 built
    exact .block (body_derives found)
  · obtain ⟨inner, found, built⟩ := bind_eq_ok.1 parsed
    cases pure_eq_ok.1 built
    exact .loop (body_derives found)
  · obtain ⟨inner, found, built⟩ := bind_eq_ok.1 parsed
    cases pure_eq_ok.1 built
    exact .conditional (conditional_derives found)
  · obtain ⟨label, found, built⟩ := bind_eq_ok.1 parsed
    cases pure_eq_ok.1 built
    exact .goto found
  · obtain ⟨targets, found, built⟩ := bind_eq_ok.1 parsed
    cases pure_eq_ok.1 built
    exact .read found
  · obtain ⟨items, found, built⟩ := bind_eq_ok.1 parsed
    cases pure_eq_ok.1 built
    exact .write found
  · obtain ⟨assignment, found, built⟩ := bind_eq_ok.1 parsed
    cases pure_eq_ok.1 built
    obtain ⟨place, placed, found⟩ := bind_eq_ok.1 found
    obtain ⟨value, valued, built⟩ := bind_eq_ok.1 found
    cases pure_eq_ok.1 built
    exact .assign placed valued
  · split at parsed
    · rename_i follows
      cases pure_eq_ok.1 parsed
      exact .empty follows
    · cases parsed
  termination_by 3 * ts.length

theorem conditional_derives {line : Nat} {ts : List Lexeme} {r : Parsed Statement ts.length}
    (parsed : conditional line ts = .ok r) : Derives (.conditional line) ts [r.value] r.rest := by
  rw [conditional.eq_def] at parsed
  obtain ⟨condition, tested, parsed⟩ := bind_eq_ok.1 parsed
  obtain ⟨keyword, joined, parsed⟩ := bind_eq_ok.1 parsed
  obtain ⟨branch, chosen, parsed⟩ := bind_eq_ok.1 parsed
  have shorter := condition.shorter
  have shorterStill := keyword.shorter
  have shortest := branch.shorter
  dsimp only at parsed
  split at parsed
  · rename_i alone
    cases pure_eq_ok.1 parsed
    exact .ifThen tested joined (statement_derives chosen) alone
  · rename_i divided
    obtain ⟨other, replaced, built⟩ := bind_eq_ok.1 parsed
    cases pure_eq_ok.1 built
    exact .ifThenElse tested joined (statement_derives chosen) divided
      (statement_derives replaced)
  termination_by 3 * ts.length

theorem item_derives {ts : List Lexeme} {r : Parsed (List Statement) (ts.length + 1)}
    (parsed : item ts = .ok r) : Derives .item ts r.value r.rest := by
  rw [item.eq_def] at parsed
  split at parsed
  · rename_i name line rest short marked
    obtain ⟨labelled, found, built⟩ := bind_eq_ok.1 parsed
    cases pure_eq_ok.1 built
    exact .labelled marked (item_derives found)
  · rename_i unmarked
    split at parsed
    · rename_i starts
      obtain ⟨declared, found, built⟩ := bind_eq_ok.1 parsed
      cases pure_eq_ok.1 built
      exact .declared unmarked starts found
    · rename_i starts
      obtain ⟨single, found, built⟩ := bind_eq_ok.1 parsed
      cases pure_eq_ok.1 built
      exact .single unmarked (Bool.eq_false_iff.2 starts) (statement_derives found)
  termination_by 3 * ts.length + 1

theorem body_derives {opened : Nat} {ts : List Lexeme} {r : Parsed (List Statement) ts.length}
    (parsed : body opened ts = .ok r) : Derives (.body opened) ts r.value r.rest := by
  rw [body.eq_def] at parsed
  split at parsed
  · cases parsed
  · cases pure_eq_ok.1 parsed
    exact .close
  · rename_i more
    obtain ⟨first, found, parsed⟩ := bind_eq_ok.1 parsed
    obtain ⟨closed, separated, parsed⟩ := bind_eq_ok.1 parsed
    have shorter := first.shorter
    have shorterStill := closed.shorter
    dsimp only at parsed
    split at parsed
    · rename_i ends
      cases pure_eq_ok.1 parsed
      exact .last more (item_derives found) separated ends
    · rename_i goesOn
      obtain ⟨others, remaining, built⟩ := bind_eq_ok.1 parsed
      cases pure_eq_ok.1 built
      exact .cons more (item_derives found) separated (Bool.eq_false_iff.2 goesOn)
        (body_derives remaining)
  termination_by 3 * ts.length + 2

end

theorem wholeProgram_derives {ts : List Lexeme} {p : Program} (parsed : wholeProgram ts = .ok p) :
    ∃ rest after, ts = ⟨.keyword .begin, p.line⟩ :: rest ∧
      Derives (.body p.line) rest p.body after ∧ dropSemicolons after = [] := by
  unfold wholeProgram at parsed
  split at parsed
  · cases parsed
  · obtain ⟨body, found, parsed⟩ := bind_eq_ok.1 parsed
    dsimp only at parsed
    split at parsed
    · rename_i nothing
      cases pure_eq_ok.1 parsed
      exact ⟨_, _, rfl, body_derives found, nothing⟩
    · cases parsed
  · cases parsed

theorem wholeProgram_of_program {ts : List Lexeme} {p : Program} (parsed : program ts = .ok p) :
    wholeProgram ts = .ok p := by
  unfold program at parsed
  split at parsed
  · cases parsed
  · exact parsed

end GotoLang.Grammar
