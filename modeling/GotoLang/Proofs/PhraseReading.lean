import GotoLang.Proofs.StatementPhrase

set_option autoImplicit false

namespace GotoLang

namespace Grammar

/-- A token follows that may follow an empty statement. No statement goes on with it. -/
def Ends (ts : List Lexeme) : Prop :=
  ∃ l rest, ts = l :: rest ∧ followsEmpty l.token = true

theorem Ends.stops {ts : List Lexeme} (ends : Ends ts) : Stops 3 ts := by
  obtain ⟨⟨token, line⟩, rest, rfl, follows⟩ := ends
  obtain rfl | rfl | rfl := followsEmpty_iff.1 follows <;>
    exact .of_binaryOperator?_eq_none nofun rfl

theorem Ends.noComma {ts : List Lexeme} (ends : Ends ts) (line : Nat) (rest : List Lexeme) :
    ts ≠ ⟨.symbol .comma, line⟩ :: rest := by
  rintro rfl
  obtain ⟨l, rest, same, follows⟩ := ends
  cases same
  cases follows

theorem ListPhrase.gives {α : Type} {item : (ts : List Lexeme) → Parse α ts.length}
    {phrase : List Lexeme → α → List Lexeme → Prop}
    (complete : ∀ {ts : List Lexeme} {a : α} {after : List Lexeme}, phrase ts a after →
      Stops 3 after → (item ts).Gives a after)
    {ts after : List Lexeme} {as : List α} (listed : ListPhrase phrase ts as after)
    (stops : Stops 3 after) (noComma : ∀ line rest, after ≠ ⟨.symbol .comma, line⟩ :: rest) :
    (commaList item ts).Gives as after := by
  induction listed with
  | one only =>
    rw [commaList.eq_def]
    refine (complete only stops).bind fun _ => ?_
    dsimp only
    rw [take?_eq_none_iff.2 noComma]
    exact ⟨_, rfl⟩
  | more first _ ih =>
    rw [commaList.eq_def]
    refine (complete first (.of_binaryOperator?_eq_none nofun rfl)).bind fun _ => ?_
    dsimp only
    rw [take?_cons]
    refine (ih stops noComma).bind fun _ => ?_
    exact ⟨_, rfl⟩

theorem identifier_gives (line l : Nat) (name : String) (rest : List Lexeme) :
    (identifier line (⟨.identifier name, l⟩ :: rest)).Gives (name, l) rest :=
  ⟨_, rfl⟩

theorem TargetPhrase.gives {line : Nat} {ts after : List Lexeme} {t : Target}
    (phrase : TargetPhrase ts t after) (stops : Stops 3 after) :
    (target line ts).Gives t after := by
  cases phrase with
  | mk indexed =>
    refine (identifier_gives ..).bind fun _ => ?_
    refine (indexed.gives (stops.mono (Nat.zero_le 3))).bind fun _ => ?_
    exact ⟨_, rfl⟩

theorem WriteItemPhrase.gives {ts after : List Lexeme} {item : WriteItem}
    (phrase : WriteItemPhrase ts item after) (stops : Stops 3 after) :
    (writeItem ts).Gives item after := by
  cases phrase with
  | @layout l => cases l <;> exact ⟨_, rfl⟩
  | expr inner =>
    unfold writeItem
    split
    · exact absurd rfl (inner.ne_keyword _ _ _)
    · exact absurd rfl (inner.ne_keyword _ _ _)
    · exact absurd rfl (inner.ne_keyword _ _ _)
    · exact (inner.gives stops).bind fun _ => ⟨_, rfl⟩

theorem NamePhrase.gives {line : Nat} {ts after : List Lexeme} {name : String}
    (phrase : NamePhrase ts name after) : (declaredName line ts).Gives name after := by
  obtain ⟨l, rfl⟩ := phrase
  exact (identifier_gives ..).bind fun _ => ⟨_, rfl⟩

/-- The size of a vector is read if the name of a type follows. -/
theorem SizePhrase.gives {line last : Nat} {type : ElementType} {ts after : List Lexeme}
    {size : Option Expr} (phrase : SizePhrase ts size (⟨.keyword type.keyword, last⟩ :: after)) :
    (vectorSize line ts).Gives size (⟨.keyword type.keyword, last⟩ :: after) := by
  cases phrase with
  | scalar => cases type <;> exact ⟨_, rfl⟩
  | vector inner =>
    refine (expect_gives ..).bind fun _ => ?_
    refine (inner.gives (.of_binaryOperator?_eq_none nofun rfl)).bind fun _ => ?_
    refine (expect_gives ..).bind fun _ => ?_
    refine (expect_gives ..).bind fun _ => ?_
    exact ⟨_, rfl⟩

theorem elementType_gives (line last : Nat) (type : ElementType) (after : List Lexeme) :
    (elementType line (⟨.keyword type.keyword, last⟩ :: after)).Gives type after := by
  cases type <;> exact ⟨_, rfl⟩

theorem DeclarationPhrase.gives {ts after : List Lexeme} {s : Statement}
    (phrase : DeclarationPhrase ts s after) : (declaration ts).Gives s after := by
  cases phrase with
  | mk listed sized =>
    refine (listed.gives (fun name _ => name.gives) (.of_binaryOperator?_eq_none nofun rfl)
      nofun).bind fun _ => ?_
    refine (expect_gives ..).bind fun _ => ?_
    refine sized.gives.bind fun _ => ?_
    refine (elementType_gives ..).bind fun _ => ?_
    exact ⟨_, rfl⟩

theorem separator_gives_false (opened line : Nat) (rest : List Lexeme) :
    (separator opened (⟨.symbol .semicolon, line⟩ :: rest)).Gives false rest :=
  ⟨_, rfl⟩

theorem separator_gives_true (opened line : Nat) (rest : List Lexeme) :
    (separator opened (⟨.keyword .end_, line⟩ :: rest)).Gives true rest :=
  ⟨_, rfl⟩

theorem Phrase.ne_nil {part : Part} {ts after : List Lexeme} {built : List Statement}
    (phrase : Phrase part ts built after) : ts ≠ [] := by
  induction phrase with
  | assign placed _ => cases placed; nofun
  | declared inner => cases inner; nofun
  | single _ ih | last _ _ ih | cons _ _ ih => exact ih
  | block | loop | ifThen | ifThenElse | goto | read | write | empty | label | name | close => nofun

/-- At `end`, an item is empty. -/
theorem Phrase.at_end {line : Nat} {rest after : List Lexeme} {built : List Statement}
    (phrase : Phrase .item (⟨.keyword .end_, line⟩ :: rest) built after) :
    after = ⟨.keyword .end_, line⟩ :: rest := by
  cases phrase with
  | declared inner => cases inner.startsDeclaration
  | single inner =>
    cases inner with
    | assign placed _ => cases placed
    | empty _ => rfl

def ReadsPart : Part → List Lexeme → List Statement → List Lexeme → Prop
  | .statement, ts, built, after => ∀ s, built = [s] → Ends after → (statement ts).Gives s after
  | .item, ts, built, after => Ends after → (item ts).Gives built after
  | .body, ts, built, after => ∀ opened, (body opened ts).Gives built after

theorem assignment_gives {line assign : Nat} {ts between after : List Lexeme} {t : Target}
    {value : Expr} (placed : TargetPhrase ts t (⟨.symbol .assign, assign⟩ :: between))
    (valued : ExprPhrase (.binary .relational) between value after) (stops : Stops 3 after) :
    (assignment line ts).Gives (.assign t value) after := by
  have given : (assigned line (⟨.symbol .assign, assign⟩ :: between)).Gives value after := by
    refine (expect_gives ..).bind fun _ => ?_
    exact (valued.gives stops).bind fun _ => ⟨_, rfl⟩
  refine (placed.gives (.of_binaryOperator?_eq_none nofun rfl)).bind fun _ => ?_
  exact given.bind fun _ => ⟨_, rfl⟩

theorem label?_name {name : String} {line colon : Nat} {rest : List Lexeme}
    (free : ¬ StartsDeclaration (⟨.identifier name, line⟩ :: ⟨.symbol .colon, colon⟩ :: rest)) :
    ∃ shorter, label? (⟨.identifier name, line⟩ :: ⟨.symbol .colon, colon⟩ :: rest) =
      some ⟨(name, line), rest, shorter⟩ := by
  have noType : ¬ typeAhead rest = true := fun ahead => free (startsDeclaration_iff.1 ahead)
  exact ⟨_, if_neg noType⟩

section

variable {line «then» : Nat} {ts between behind after : List Lexeme} {condition : Expr}
  {branch other : Statement}

theorem conditional_gives_ifThen
    (tested : ExprPhrase (.binary .relational) ts condition (⟨.keyword .then_, «then»⟩ :: between))
    (chosen : (statement between).Gives branch after)
    (alone : ∀ «else» rest, after ≠ ⟨.keyword .else_, «else»⟩ :: rest) :
    (conditional line ts).Gives (.ifThen condition branch line) after := by
  rw [conditional.eq_def]
  refine (tested.gives (.of_binaryOperator?_eq_none nofun rfl)).bind fun _ => ?_
  refine (expect_gives ..).bind fun _ => ?_
  refine chosen.bind fun _ => ?_
  dsimp only
  rw [take?_eq_none_iff.2 alone]
  exact ⟨_, rfl⟩

theorem conditional_gives_ifThenElse {«else» : Nat}
    (tested : ExprPhrase (.binary .relational) ts condition (⟨.keyword .then_, «then»⟩ :: between))
    (chosen : (statement between).Gives branch (⟨.keyword .else_, «else»⟩ :: behind))
    (replaced : (statement behind).Gives other after) :
    (conditional line ts).Gives (.ifThenElse condition branch other line) after := by
  rw [conditional.eq_def]
  refine (tested.gives (.of_binaryOperator?_eq_none nofun rfl)).bind fun _ => ?_
  refine (expect_gives ..).bind fun _ => ?_
  refine chosen.bind fun _ => ?_
  dsimp only
  rw [take?_cons]
  refine replaced.bind fun _ => ?_
  exact ⟨_, rfl⟩

end

theorem Phrase.reads {part : Part} {ts after : List Lexeme} {built : List Statement}
    (phrase : Phrase part ts built after) : ReadsPart part ts built after := by
  induction phrase with
  | block _ ih =>
    rintro _ ⟨⟩ _
    rw [statement.eq_def]
    exact (ih _).bind fun _ => ⟨_, rfl⟩
  | loop _ ih =>
    rintro _ ⟨⟩ _
    rw [statement.eq_def]
    exact (ih _).bind fun _ => ⟨_, rfl⟩
  | ifThen tested _ alone ih =>
    rintro _ ⟨⟩ ends
    rw [statement.eq_def]
    exact (conditional_gives_ifThen tested (ih _ rfl ends) alone).bind fun _ => ⟨_, rfl⟩
  | ifThenElse tested _ _ ih ihOther =>
    rintro _ ⟨⟩ ends
    rw [statement.eq_def]
    have chosen := ih _ rfl ⟨_, _, rfl, rfl⟩
    exact (conditional_gives_ifThenElse tested chosen (ihOther _ rfl ends)).bind fun _ => ⟨_, rfl⟩
  | goto =>
    rintro _ ⟨⟩ _
    rw [statement.eq_def]
    exact (identifier_gives ..).bind fun _ => ⟨_, rfl⟩
  | read listed =>
    rintro _ ⟨⟩ ends
    rw [statement.eq_def]
    exact (listed.gives TargetPhrase.gives ends.stops ends.noComma).bind fun _ => ⟨_, rfl⟩
  | write listed =>
    rintro _ ⟨⟩ ends
    rw [statement.eq_def]
    exact (listed.gives WriteItemPhrase.gives ends.stops ends.noComma).bind fun _ => ⟨_, rfl⟩
  | assign placed valued =>
    rintro _ ⟨⟩ ends
    rw [statement.eq_def]
    have whole : ∀ line, (assignment line _).Gives _ _ :=
      fun _ => assignment_gives placed valued ends.stops
    cases placed with
    | mk _ => exact (whole _).bind fun _ => ⟨_, rfl⟩
  | @empty l _ follows =>
    rintro _ ⟨⟩ _
    obtain ⟨token, line⟩ := l
    rw [statement.eq_def]
    obtain rfl | rfl | rfl := followsEmpty_iff.1 follows <;> exact ⟨_, rfl⟩
  | label _ ih =>
    intro ends
    rw [item.eq_def]
    exact (ih ends).bind fun _ => ⟨_, rfl⟩
  | name free _ ih =>
    intro ends
    obtain ⟨_, marked⟩ := label?_name free
    rw [item.eq_def, marked]
    exact (ih ends).bind fun _ => ⟨_, rfl⟩
  | declared inner =>
    intro _
    rw [item.eq_def, label?_of_startsDeclaration inner.startsDeclaration]
    dsimp only
    rw [if_pos inner.startsDeclaration]
    exact inner.gives.bind fun _ => ⟨_, rfl⟩
  | single inner ih =>
    intro ends
    rw [item.eq_def, inner.plain.1]
    dsimp only
    rw [if_neg (Bool.eq_false_iff.1 inner.plain.2)]
    exact (ih _ rfl ends).bind fun _ => ⟨_, rfl⟩
  | close =>
    intro opened
    rw [body.eq_def]
    exact ⟨_, rfl⟩
  | last given inner ih =>
    intro opened
    rw [body.eq_def]
    split
    · exact absurd rfl inner.ne_nil
    · cases inner.at_end
      exact absurd rfl given
    · refine (ih ⟨_, _, rfl, rfl⟩).bind fun _ => ?_
      refine (separator_gives_true ..).bind fun _ => ?_
      exact ⟨_, rfl⟩
  | cons inner _ ih ihRest =>
    intro opened
    rw [body.eq_def]
    split
    · exact absurd rfl inner.ne_nil
    · cases inner.at_end
    · refine (ih ⟨_, _, rfl, rfl⟩).bind fun _ => ?_
      refine (separator_gives_false ..).bind fun _ => ?_
      refine (ihRest opened).bind fun _ => ?_
      exact ⟨_, rfl⟩

theorem dropSemicolons_eq_nil_iff {ts : List Lexeme} :
    dropSemicolons ts = [] ↔ ∀ l ∈ ts, l.token = .symbol .semicolon := by
  fun_induction dropSemicolons ts with
  | case1 line rest ih =>
    rw [ih, List.forall_mem_cons]
    exact (and_iff_right rfl).symm
  | case2 ts other =>
    constructor
    · rintro rfl
      exact List.forall_mem_nil _
    · intro same
      cases ts with
      | nil => rfl
      | cons l rest =>
        have semicolon := same l (List.mem_cons_self ..)
        exact (other l.line rest (semicolon ▸ rfl)).elim

theorem ProgramPhrase.program_eq {ts : List Lexeme} {p : Program} (phrase : ProgramPhrase ts p) :
    program ts = .ok p := by
  obtain ⟨rest, after, rfl, inner, only⟩ := phrase
  obtain ⟨shorter, found⟩ := inner.reads p.line
  have whole : wholeProgram (⟨.keyword .begin, p.line⟩ :: rest) = .ok p := by
    refine bind_eq_ok.2 ⟨_, found, ?_⟩
    dsimp only
    rw [dropSemicolons_eq_nil_iff.2 only]
    rfl
  rw [program, whole]

/-- The rules accept exactly the programs of the grammar and build the tree that the grammar says,
with the line of every node. No list of tokens stands for two programs. -/
theorem program_iff_phrase (ts : List Lexeme) :
    (∀ p, program ts = .ok p ↔ ProgramPhrase ts p) ∧
      ∀ p q, ProgramPhrase ts p → ProgramPhrase ts q → p = q := by
  have complete : ∀ p, ProgramPhrase ts p → program ts = .ok p := fun _ => ProgramPhrase.program_eq
  refine ⟨fun p => ⟨fun parsed => ?_, complete p⟩, fun p q one other => ?_⟩
  · obtain ⟨rest, after, begins, derives, nothing⟩ :=
      wholeProgram_derives (wholeProgram_of_program parsed)
    exact ⟨rest, after, begins, derives.phrase, dropSemicolons_eq_nil_iff.1 nothing⟩
  · have same := complete p one
    rw [complete q other] at same
    exact (Except.ok.inj same).symm

/-- An `else` goes to the inner one of two nested `if`s, and its empty branch stands on the line of
the `end` behind it. -/
theorem program_iff_phrase_of_nested_if :
    program [⟨.keyword .begin, 1⟩, ⟨.label "a", 2⟩,
        ⟨.keyword .if_, 2⟩, ⟨.identifier "x", 2⟩, ⟨.keyword .then_, 2⟩,
        ⟨.keyword .if_, 3⟩, ⟨.identifier "y", 3⟩, ⟨.keyword .then_, 3⟩,
        ⟨.keyword .goto, 3⟩, ⟨.identifier "a", 3⟩, ⟨.keyword .else_, 4⟩, ⟨.keyword .end_, 5⟩] =
      .ok ⟨[.label "a" 2, .ifThen (.var "x" 2)
        (.ifThenElse (.var "y" 3) (.goto "a" 3) (.empty 5) 3) 2], 1⟩ := by
  have named : ∀ name line after, ExprPhrase (.binary .relational)
      (⟨.identifier name, line⟩ :: after) (.var name line) after :=
    fun _ _ _ => .operand (.operand (.operand (.single .var)))
  refine ((program_iff_phrase _).1 _).2 ⟨_, [], rfl, ?body, List.forall_mem_nil _⟩
  refine @Phrase.last 5 _ _ _ nofun (.label (.single ?outer))
  refine .ifThen (named "x" 2 _) ?inner nofun
  exact .ifThenElse (named "y" 3 _) .goto (.empty rfl)

end Grammar

end GotoLang
