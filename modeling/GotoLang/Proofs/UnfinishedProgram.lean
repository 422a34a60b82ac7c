import GotoLang.Proofs.CutExpression
import GotoLang.Proofs.PhraseReading

set_option autoImplicit false

namespace GotoLang

namespace Grammar

variable {tokens behind : List Lexeme} {α : Type} {opened : List Nat}

theorem commaList_continues {item : (ts : List Lexeme) → Parse α ts.length} {goesOn : Bool}
    (each : ∀ ts, Remains tokens opened ts →
      Continues tokens behind (fun _ => opened) goesOn (item ts) (item (ts ++ behind)))
    {ts : List Lexeme} (here : Remains tokens opened ts) :
    Continues tokens behind (fun _ => opened) true (commaList item ts)
      (commaList item (ts ++ behind)) := by
  rw [commaList.eq_def, commaList.eq_def item (ts ++ behind)]
  apply (each ts here).bind
  · intro first rest short _ between
    cases rest with
    | nil => exact .early rfl between
    | cons l rest =>
      by_cases comma : l.token = .symbol .comma
      · obtain ⟨token, line⟩ := l
        cases comma
        simp only [List.cons_append, take?, if_true]
        exact (commaList_continues each between.next).map (first :: ·)
      · simp only [List.cons_append, take?, if_neg comma]
        exact .ok between
  · intro _ first _ _ after
    exact .early rfl after
  termination_by ts.length
  decreasing_by simp only [List.length_cons] at *; omega

theorem target_continues {ts : List Lexeme} (here : Remains tokens opened ts) (line : Nat) :
    Continues tokens behind (fun _ => opened) true (target line ts)
      (target line (ts ++ behind)) := by
  apply (identifier_continues here line).bind
  · intro named rest _ _ between
    exact (index_continues between named.2).map fun index => Target.mk named.1 index named.2
  · nofun

theorem writeItem_nil : writeItem [] = .error ⟨.endOfInput, 0⟩ := by
  with_unfolding_all rfl

theorem writeItem_continues (ts : List Lexeme) (here : Remains tokens opened ts) :
    Continues tokens behind (fun _ => opened) true (writeItem ts) (writeItem (ts ++ behind)) := by
  have printed : Continues tokens behind (fun _ => opened) true (expression ts)
      (expression (ts ++ behind)) := binary_continues here .relational
  cases ts with
  | nil =>
    rw [writeItem_nil]
    exact .unfinished .endOfInput
  | cons l rest =>
    obtain ⟨token, line⟩ := l
    have after := here.next
    cases token with
    | keyword k => cases k <;> first | exact .ok after | exact printed.map WriteItem.expr
    | integer | real | identifier | label | symbol => exact printed.map WriteItem.expr

theorem vectorSize_of_ne {ts : List Lexeme}
    (other : ∀ line rest, ts ≠ ⟨.keyword .vector, line⟩ :: rest) (line : Nat) :
    vectorSize line ts = .ok (.zero none) := by
  unfold vectorSize
  split
  · exact absurd rfl (other _ _)
  · rfl

theorem vectorSize_continues {ts : List Lexeme} (here : Remains tokens opened ts) (line : Nat) :
    Continues tokens behind (fun _ => opened) true (vectorSize line ts)
      (vectorSize line (ts ++ behind)) := by
  cases ts with
  | nil => exact .early rfl here
  | cons l rest =>
    rw [List.cons_append]
    by_cases vector : l.token = .keyword .vector
    · obtain ⟨token, first⟩ := l
      cases vector
      apply (expect_continues (fun _ _ => rfl) here.next _ line).bind
      · intro _ rest _ _ between
        apply (binary_continues between .relational).bind
        · intro size rest _ _ between
          apply (expect_continues (fun _ _ => rfl) between _ line).bind
          · intro _ rest _ _ between
            exact ((expect_continues (fun _ _ => rfl) between _ line).map
              fun _ => some size).of_strict
          · nofun
        · intro _ size _ _ after
          exact .unfinished .endOfInput
      · nofun
    · rw [vectorSize_of_ne (ne_cons_of_ne vector _), vectorSize_of_ne (ne_cons_of_ne vector _)]
      exact .ok here

theorem elementType_continues {ts : List Lexeme} (here : Remains tokens opened ts) (line : Nat) :
    Continues tokens behind (fun _ => opened) false (elementType line ts)
      (elementType line (ts ++ behind)) := by
  cases ts with
  | nil => exact .unfinished .endOfInput
  | cons l rest =>
    obtain ⟨token, first⟩ := l
    have after := here.next
    cases token with
    | keyword k => cases k <;> first | exact .ok after | exact .error
    | integer | real | identifier | label | symbol => exact .error

theorem declaredName_continues (line : Nat) (ts : List Lexeme) (here : Remains tokens opened ts) :
    Continues tokens behind (fun _ => opened) false (declaredName line ts)
      (declaredName line (ts ++ behind)) :=
  (identifier_continues here line).map Prod.fst

theorem declaration_continues {l : Lexeme} {rest : List Lexeme}
    (here : Remains tokens opened (l :: rest)) :
    Continues tokens behind (fun _ => opened) false (declaration (l :: rest))
      (declaration (l :: (rest ++ behind))) := by
  apply (commaList_continues (declaredName_continues l.line) here).bind
  · intro names rest _ _ between
    apply (expect_continues (fun _ _ => rfl) between _ l.line).bind
    · intro _ rest _ _ between
      apply (vectorSize_continues between l.line).bind
      · intro size rest _ _ between
        exact (elementType_continues between l.line).map (Statement.declare names size · l.line)
      · intro _ size _ _ after
        exact .unfinished .endOfInput
    · nofun
  · intro _ names _ _ after
    exact .unfinished .endOfInput

theorem assigned_continues {ts : List Lexeme} (here : Remains tokens opened ts) (line : Nat) :
    Continues tokens behind (fun _ => opened) true (assigned line ts)
      (assigned line (ts ++ behind)) := by
  apply (expect_continues (fun _ _ => rfl) here _ line).bind
  · intro _ rest _ _ between
    exact (binary_continues between .relational).map id
  · nofun

theorem assignment_continues {ts : List Lexeme} (here : Remains tokens opened ts) (line : Nat) :
    Continues tokens behind (fun _ => opened) true (assignment line ts)
      (assignment line (ts ++ behind)) := by
  apply (target_continues here line).bind
  · intro target rest _ _ between
    exact (assigned_continues between line).map (Statement.assign target ·)
  · intro _ target _ _ after
    exact .unfinished .endOfInput

/-- `end` closes what was opened last. -/
theorem separator_continues {ts : List Lexeme} {line : Nat}
    (here : Remains tokens (line :: opened) ts) :
    Continues tokens behind (fun closed => if closed then opened else line :: opened) false
      (separator line ts) (separator line (ts ++ behind)) := by
  cases ts with
  | nil => exact .unfinished (here.missingEnd behind)
  | cons l rest =>
    obtain ⟨token, first⟩ := l
    have after := here.next
    cases token with
    | keyword k => cases k <;> first | exact .ok after | exact .error
    | symbol s => cases s <;> first | exact .ok after | exact .error
    | integer | real | identifier | label => exact .error

theorem item_nil : item [] = .error ⟨.endOfInput, 0⟩ := by
  with_unfolding_all rfl

/-- A name alone is the target of an assignment that is cut off. -/
theorem item_name (name : String) (line : Nat) :
    item [⟨.identifier name, line⟩] = .error ⟨.endOfInput, line⟩ := by
  with_unfolding_all rfl

/-- A name and a comma are taken for an assignment if no declaration is seen. -/
theorem item_names {name : String} {line comma : Nat} {rest : List Lexeme}
    (hidden : ¬ startsDeclaration (⟨.identifier name, line⟩ :: ⟨.symbol .comma, comma⟩ :: rest)) :
    item (⟨.identifier name, line⟩ :: ⟨.symbol .comma, comma⟩ :: rest) =
      .error ⟨.expected .assignAfterTarget (.symbol .comma), comma⟩ := by
  have noBracket : ∀ first after, (⟨.symbol .comma, comma⟩ : Lexeme) :: rest ≠
      ⟨.symbol .leftBracket, first⟩ :: after := by
    intro first after same
    cases same
  have placed : target line (⟨.identifier name, line⟩ :: ⟨.symbol .comma, comma⟩ :: rest) =
      .ok ⟨⟨name, none, line⟩, ⟨.symbol .comma, comma⟩ :: rest, Nat.lt_succ_self _⟩ :=
    bind_eq_ok.2 ⟨_, rfl, bind_eq_ok.2 ⟨_, index_of_ne noBracket line, rfl⟩⟩
  rw [item.eq_def]
  simp only [label?, if_neg hidden]
  rw [statement.eq_def]
  simp only [assignment, placed]
  rfl

theorem item_of_label? {ts rest : List Lexeme} {name : String} {line : Nat}
    {shorter : rest.length < ts.length} (marked : label? ts = some ⟨(name, line), rest, shorter⟩) :
    item ts = item rest >>= fun labelled =>
      .ok ⟨.label name line :: labelled.value, labelled.rest,
        by have := labelled.shorter; omega⟩ := by
  rw [item.eq_def, marked]
  rfl

theorem item_of_declaration {ts : List Lexeme} (starts : startsDeclaration ts = true) :
    item ts = declaration ts >>= fun declared =>
      .ok ⟨[declared.value], declared.rest, Nat.lt_succ_of_lt declared.shorter⟩ := by
  rw [item.eq_def, label?_of_startsDeclaration starts]
  simp only [if_pos starts]
  rfl

theorem item_of_statement {ts : List Lexeme} (unmarked : label? ts = none)
    (plain : ¬ startsDeclaration ts) :
    item ts = statement ts >>= fun single => .ok ⟨[single.value], single.rest, single.shorter⟩ := by
  rw [item.eq_def, unmarked]
  simp only [if_neg plain]
  rfl

theorem body_of_ne {ts : List Lexeme} (nonempty : ts ≠ [])
    (goesOn : ∀ line rest, ts ≠ ⟨.keyword .end_, line⟩ :: rest) (opened : Nat) :
    body opened ts = item ts >>= fun first => separator opened first.rest >>= fun closed =>
      if closed.value then
        .ok ⟨first.value, closed.rest, by have := first.shorter; have := closed.shorter; omega⟩
      else body opened closed.rest >>= fun others =>
        .ok ⟨first.value ++ others.value, others.rest, by
          have := first.shorter; have := closed.shorter; have := others.shorter; omega⟩ := by
  rw [body.eq_def]
  split
  · exact absurd rfl nonempty
  · exact absurd rfl (goesOn _ _)
  · rfl

/-- The first token tells whether a type is ahead. -/
theorem typeAhead_cons (l : Lexeme) (rest other : List Lexeme) :
    typeAhead (l :: rest) = typeAhead (l :: other) := by
  obtain ⟨token, line⟩ := l
  cases token <;> rfl

theorem startsDeclaration_append {ts : List Lexeme} (starts : startsDeclaration ts = true)
    (more : List Lexeme) : startsDeclaration (ts ++ more) = true := by
  fun_induction startsDeclaration ts with
  | case1 name line comma rest ih => exact ih starts
  | case2 name line colon rest =>
    cases rest with
    | nil => cases starts
    | cons l rest => exact (typeAhead_cons l _ _).trans starts
  | case3 => cases starts

/-- A cut that hides a declaration is behind a comma of its head. -/
theorem Remains.cutInHead {name : String} {line comma : Nat} {rest : List Lexeme}
    (here : Remains tokens opened (⟨.identifier name, line⟩ :: ⟨.symbol .comma, comma⟩ :: rest))
    (hidden : ¬ startsDeclaration (⟨.identifier name, line⟩ :: ⟨.symbol .comma, comma⟩ :: rest))
    (ahead : startsDeclaration
      (⟨.identifier name, line⟩ :: ⟨.symbol .comma, comma⟩ :: (rest ++ behind))) :
    CutInHead tokens behind comma := by
  obtain ⟨front, split, _⟩ := here
  rw [startsDeclaration_iff] at hidden ahead
  exact ⟨front, name, line, rest, split, ahead, hidden⟩

theorem item_continues_of_label? {ts rest : List Lexeme} {name : String} {line : Nat}
    {shorter : rest.length < ts.length} {short : (rest ++ behind).length < (ts ++ behind).length}
    (labelled : Continues tokens behind (fun _ => opened) true (item rest) (item (rest ++ behind)))
    (marked : label? ts = some ⟨(name, line), rest, shorter⟩)
    (alsoMarked : label? (ts ++ behind) = some ⟨(name, line), rest ++ behind, short⟩) :
    Continues tokens behind (fun _ => opened) true (item ts) (item (ts ++ behind)) := by
  rw [item_of_label? marked, item_of_label? alsoMarked]
  exact labelled.map (Statement.label name line :: ·)

theorem item_continues_of_declaration {l : Lexeme} {rest : List Lexeme}
    (here : Remains tokens opened (l :: rest)) (starts : startsDeclaration (l :: rest) = true) :
    Continues tokens behind (fun _ => opened) true (item (l :: rest))
      (item (l :: (rest ++ behind))) := by
  have also : startsDeclaration (l :: (rest ++ behind)) = true :=
    startsDeclaration_append starts behind
  rw [item_of_declaration starts, item_of_declaration also]
  exact ((declaration_continues here).map ([·])).of_strict

theorem item_continues_of_statement {ts : List Lexeme}
    (single : Continues tokens behind (fun _ => opened) true (statement ts)
      (statement (ts ++ behind)))
    (unmarked : label? ts = none) (plain : ¬ startsDeclaration ts)
    (alsoUnmarked : label? (ts ++ behind) = none) (alsoPlain : ¬ startsDeclaration (ts ++ behind)) :
    Continues tokens behind (fun _ => opened) true (item ts) (item (ts ++ behind)) := by
  rw [item_of_statement unmarked plain, item_of_statement alsoUnmarked alsoPlain]
  exact single.map ([·])

/-- Behind a name and a comma the rule may see a declaration in all of the tokens and none before
the cut. -/
theorem item_names_continues {name : String} {line comma : Nat} {rest : List Lexeme}
    (here : Remains tokens opened (⟨.identifier name, line⟩ :: ⟨.symbol .comma, comma⟩ :: rest))
    (single : Continues tokens behind (fun _ => opened) true
      (statement (⟨.identifier name, line⟩ :: ⟨.symbol .comma, comma⟩ :: rest))
      (statement (⟨.identifier name, line⟩ :: ⟨.symbol .comma, comma⟩ :: (rest ++ behind)))) :
    Continues tokens behind (fun _ => opened) true
      (item (⟨.identifier name, line⟩ :: ⟨.symbol .comma, comma⟩ :: rest))
      (item (⟨.identifier name, line⟩ :: ⟨.symbol .comma, comma⟩ :: (rest ++ behind))) := by
  by_cases seen : startsDeclaration (⟨.identifier name, line⟩ :: ⟨.symbol .comma, comma⟩ :: rest)
  · exact item_continues_of_declaration here seen
  · by_cases ahead : startsDeclaration
        (⟨.identifier name, line⟩ :: ⟨.symbol .comma, comma⟩ :: (rest ++ behind))
    · rw [item_names seen]
      exact .unfinished (.head (here.cutInHead seen ahead))
    · exact item_continues_of_statement single rfl seen rfl ahead

mutual

theorem statement_continues {opened : List Nat} {ts : List Lexeme}
    (here : Remains tokens opened ts) :
    Continues tokens behind (fun _ => opened) true (statement ts) (statement (ts ++ behind)) := by
  cases ts with
  | nil =>
    rw [statement.eq_def]
    exact .unfinished .endOfInput
  | cons l rest =>
    obtain ⟨token, line⟩ := l
    have between := here.next
    rw [List.cons_append, statement.eq_def, statement.eq_def (_ :: (rest ++ behind))]
    cases token with
    | keyword k =>
      cases k with
      | begin => exact ((body_continues between).map (Statement.block · line)).of_strict
      | loop => exact ((body_continues between).map (Statement.loop · line)).of_strict
      | if_ => exact (conditional_continues between line).map id
      | goto => exact ((identifier_continues between line).map (Statement.goto ·.1 line)).of_strict
      | read =>
        exact (commaList_continues (fun _ here => target_continues here line) between).map
          (Statement.read · line)
      | write =>
        exact (commaList_continues writeItem_continues between).map (Statement.write · line)
      | end_ | else_ => exact .ok here
      | _ => exact .error
    | identifier name => exact (assignment_continues here line).map id
    | symbol s =>
      cases s with
      | semicolon => exact .ok here
      | _ => exact .error
    | integer | real | label => exact .error
  termination_by 3 * ts.length

theorem conditional_continues {opened : List Nat} {ts : List Lexeme}
    (here : Remains tokens opened ts) (line : Nat) :
    Continues tokens behind (fun _ => opened) true (conditional line ts)
      (conditional line (ts ++ behind)) := by
  rw [conditional.eq_def, conditional.eq_def line (ts ++ behind)]
  apply (binary_continues here .relational).bind
  · intro condition rest short _ between
    apply (expect_continues (fun _ _ => rfl) between _ line).bind
    · intro _ rest shorter _ between
      apply (statement_continues between).bind
      · intro branch rest shortest _ between
        cases rest with
        | nil => exact .early rfl between
        | cons l rest =>
          by_cases other : l.token = .keyword .else_
          · obtain ⟨token, first⟩ := l
            cases other
            simp only [List.cons_append, take?, if_true]
            exact (statement_continues between.next).map
              (Statement.ifThenElse condition branch · line)
          · simp only [List.cons_append, take?, if_neg other]
            exact .ok between
      · intro _ branch _ _ after
        exact .early rfl after
    · nofun
  · intro _ condition _ _ after
    exact .unfinished .endOfInput
  termination_by 3 * ts.length
  decreasing_by all_goals simp only [List.length_cons] at *; omega

theorem item_continues {opened : List Nat} {ts : List Lexeme} (here : Remains tokens opened ts) :
    Continues tokens behind (fun _ => opened) true (item ts) (item (ts ++ behind)) := by
  have single := statement_continues here
  cases ts with
  | nil =>
    rw [item_nil]
    exact .unfinished .endOfInput
  | cons l rest =>
    obtain ⟨token, line⟩ := l
    cases token with
    | label name => exact item_continues_of_label? (item_continues here.next) rfl rfl
    | identifier name =>
      cases rest with
      | nil =>
        rw [item_name]
        exact .unfinished .endOfInput
      | cons second rest =>
        obtain ⟨token, later⟩ := second
        cases token with
        | symbol s =>
          cases s with
          | colon =>
            cases rest with
            | nil =>
              have marked : label? [⟨.identifier name, line⟩, ⟨.symbol .colon, later⟩] =
                  some ⟨(name, line), [], Nat.succ_pos 1⟩ := rfl
              rw [item_of_label? marked, item_nil]
              exact .unfinished .endOfInput
            | cons third rest =>
              by_cases typed : typeAhead (third :: rest)
              · exact item_continues_of_declaration here typed
              · have also : ¬ typeAhead (third :: (rest ++ behind)) := by
                  rw [typeAhead_cons third _ rest]
                  exact typed
                exact item_continues_of_label? (item_continues here.next.next) (if_neg typed)
                  (if_neg also)
          | comma => exact item_names_continues here single
          | _ => exact item_continues_of_statement single rfl nofun rfl nofun
        | integer | real | identifier | label | keyword =>
          exact item_continues_of_statement single rfl nofun rfl nofun
    | integer | real | keyword | symbol =>
      exact item_continues_of_statement single rfl nofun rfl nofun
  termination_by 3 * ts.length + 1

theorem body_continues {opened : List Nat} {ts : List Lexeme} {line : Nat}
    (here : Remains tokens (line :: opened) ts) :
    Continues tokens behind (fun _ => opened) false (body line ts) (body line (ts ++ behind)) := by
  cases ts with
  | nil =>
    rw [body.eq_def]
    exact .unfinished (here.missingEnd behind)
  | cons l rest =>
    rw [List.cons_append]
    by_cases closes : l.token = .keyword .end_
    · obtain ⟨token, first⟩ := l
      cases closes
      rw [body.eq_def, body.eq_def line (_ :: (rest ++ behind))]
      exact .ok here.next
    · rw [body_of_ne (List.cons_ne_nil _ _) (ne_cons_of_ne closes _),
        body_of_ne (List.cons_ne_nil _ _) (ne_cons_of_ne closes _)]
      apply (item_continues here).bind
      · intro first rest short _ between
        apply (separator_continues between).bind
        · intro closed rest shorter _ between
          cases closed with
          | true => exact .ok between
          | false => exact (body_continues between).map (first ++ ·)
        · nofun
      · -- The tokens are used up behind an item, and the rule comes to the separator with nothing.
        intro _ first _ _ between
        exact .unfinished (between.missingEnd behind)
  termination_by 3 * ts.length + 2

end

/-- Where all of the tokens are read, the cut shows in an error or behind what is read before it. -/
theorem Continues.of_ok {n m : Nat} {a : α} {after : List Lexeme} {shorter : after.length < m}
    {before : α → List Nat} {one : Parse α n}
    (continues : Continues tokens behind before false one (.ok ⟨a, after, shorter⟩)) :
    (∃ e, one = .error e ∧ Unfinished tokens behind e) ∨ ∃ rest, after = rest ++ behind := by
  cases continues with
  | ok => exact .inr ⟨_, rfl⟩
  | early may => cases may
  | unfinished ends => exact .inl ⟨_, rfl, ends⟩

/-- A program that is cut before its last `end` is reported as unfinished: as no program if nothing
is left of it, on the line of the last token if a rule finds too few of them, or on the line of what
was opened last and is not closed. The one exception are cuts in the head of a declaration of several
names. The rules see a declaration by the type behind the names, and report the comma if it is cut
off. -/
theorem truncated_program_unfinished {tokens behind : List Lexeme} {p : Program}
    (accepted : program (tokens ++ behind) = .ok p)
    (truncated : ∃ l ∈ behind, l.token = .keyword .end_) :
    ∃ e, program tokens = .error e ∧
      (tokens = [] ∧ e = ⟨.notBlock, 1⟩ ∨
        tokens ≠ [] ∧ e = ⟨.endOfInput, lastLine tokens⟩ ∨
        (∃ line, (unclosed tokens).head? = some line ∧ e = ⟨.missingEnd, line⟩) ∨
        ∃ comma, CutInHead tokens behind comma ∧
          e = ⟨.expected .assignAfterTarget (.symbol .comma), comma⟩) := by
  have whole := wholeProgram_of_program accepted
  cases tokens with
  | nil => exact ⟨_, rfl, .inl ⟨rfl, rfl⟩⟩
  | cons l rest =>
    obtain ⟨_, after, begins, derives, nothing⟩ := wholeProgram_derives whole
    rw [List.cons_append] at begins
    cases begins
    obtain ⟨shorter, found⟩ := derives.phrase.reads p.line
    have opened : Remains (⟨.keyword .begin, p.line⟩ :: rest) [p.line] rest := ⟨[_], rfl, rfl⟩
    have continues : Continues (⟨.keyword .begin, p.line⟩ :: rest) behind (fun _ => []) false
        (body p.line rest) (body p.line (rest ++ behind)) := body_continues opened
    rw [found] at continues
    -- The body of the whole program is read, so the cut cannot repeat one of its errors.
    obtain ⟨e, failed, ends⟩ | ⟨left, split⟩ := continues.of_ok
    · have stopped : wholeProgram (⟨.keyword .begin, p.line⟩ :: rest) = .error e := by
        rw [wholeProgram, failed]
        rfl
      have nonempty : (⟨.keyword .begin, p.line⟩ : Lexeme) :: rest ≠ [] := List.cons_ne_nil _ _
      cases ends with
      | endOfInput => exact ⟨_, by rw [program, stopped], .inr (.inl ⟨nonempty, rfl⟩)⟩
      | missingEnd last => exact ⟨_, by rw [program, stopped], .inr (.inr (.inl ⟨_, last, rfl⟩))⟩
      | head cut => exact ⟨_, by rw [program, stopped], .inr (.inr (.inr ⟨_, cut, rfl⟩))⟩
    · -- The program is closed before the cut, so only semicolons are behind it.
      obtain ⟨closing, behind, closes⟩ := truncated
      have inAfter : closing ∈ after := by
        rw [split]
        exact List.mem_append_right left behind
      rw [dropSemicolons_eq_nil_iff.1 nothing closing inAfter] at closes
      cases closes

/-- A cut in the second loop of a program, and one in the head of a declaration. -/
theorem truncated_program_unfinished_in_loop :
    (∃ tokens behind p,
      tokens = [⟨.keyword .begin, 1⟩, ⟨.keyword .loop, 2⟩, ⟨.keyword .end_, 3⟩,
        ⟨.symbol .semicolon, 3⟩, ⟨.keyword .loop, 4⟩] ∧
      behind = [⟨.keyword .end_, 5⟩, ⟨.keyword .end_, 6⟩] ∧
      program (tokens ++ behind) = .ok p ∧ program tokens = .error ⟨.missingEnd, 4⟩ ∧
      (unclosed tokens).head? = some 4) ∧
    ∃ tokens behind p,
      tokens = [⟨.keyword .begin, 1⟩, ⟨.identifier "a", 2⟩, ⟨.symbol .comma, 2⟩,
        ⟨.identifier "b", 3⟩] ∧
      behind = [⟨.symbol .colon, 3⟩, ⟨.keyword .integer, 3⟩, ⟨.keyword .end_, 4⟩] ∧
      program (tokens ++ behind) = .ok p ∧
      program tokens = .error ⟨.expected .assignAfterTarget (.symbol .comma), 2⟩ ∧
      CutInHead tokens behind 2 := by
  constructor
  · let tokens : List Lexeme := [⟨.keyword .begin, 1⟩, ⟨.keyword .loop, 2⟩, ⟨.keyword .end_, 3⟩,
      ⟨.symbol .semicolon, 3⟩, ⟨.keyword .loop, 4⟩]
    let behind : List Lexeme := [⟨.keyword .end_, 5⟩, ⟨.keyword .end_, 6⟩]
    have accepted : program (tokens ++ behind) = .ok ⟨[.loop [] 2, .loop [] 4], 1⟩ := by
      with_unfolding_all rfl
    have refused : program tokens = .error ⟨.missingEnd, 4⟩ := by
      with_unfolding_all rfl
    obtain ⟨e, failed, reported⟩ :=
      truncated_program_unfinished accepted ⟨_, List.mem_cons_self .., rfl⟩
    rw [refused] at failed
    cases failed
    obtain ⟨none, _⟩ | ⟨_, other⟩ | ⟨line, last, same⟩ | ⟨_, _, other⟩ := reported
    · exact absurd none (List.cons_ne_nil _ _)
    · cases other
    · cases same
      exact ⟨tokens, behind, _, rfl, rfl, accepted, refused, last⟩
    · cases other
  · let tokens : List Lexeme := [⟨.keyword .begin, 1⟩, ⟨.identifier "a", 2⟩, ⟨.symbol .comma, 2⟩,
      ⟨.identifier "b", 3⟩]
    let behind : List Lexeme :=
      [⟨.symbol .colon, 3⟩, ⟨.keyword .integer, 3⟩, ⟨.keyword .end_, 4⟩]
    have accepted : program (tokens ++ behind) = .ok ⟨[.declare ["a", "b"] none .integer 2], 1⟩ := by
      with_unfolding_all rfl
    have refused : program tokens = .error ⟨.expected .assignAfterTarget (.symbol .comma), 2⟩ := by
      with_unfolding_all rfl
    have closing : (⟨.keyword .end_, 4⟩ : Lexeme) ∈ behind := by
      decide
    obtain ⟨e, failed, reported⟩ := truncated_program_unfinished accepted ⟨_, closing, rfl⟩
    rw [refused] at failed
    cases failed
    obtain ⟨none, _⟩ | ⟨_, other⟩ | ⟨_, _, other⟩ | ⟨comma, cut, same⟩ := reported
    · exact absurd none (List.cons_ne_nil _ _)
    · cases other
    · cases other
    · cases same
      exact ⟨tokens, behind, _, rfl, rfl, accepted, refused, cut⟩

end Grammar

end GotoLang
