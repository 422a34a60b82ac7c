import GotoLang.Proofs.PhraseExtent
import GotoLang.Proofs.PhraseReading
import GotoLang.Proofs.StatementTree

set_option autoImplicit false

namespace GotoLang

def Token.startsLabel : Token → Bool
  | .label _ | .identifier _ => true
  | _ => false

namespace Grammar

/-- A label of a name on a line, with the tokens behind it: as one token, or as two. -/
inductive SpelledLabel (name : String) (line : Nat) (rest : List Lexeme) : List Lexeme → Prop
  | joined : SpelledLabel name line rest (⟨.label name, line⟩ :: rest)
  | apart (colon : Nat) : SpelledLabel name line rest
      (⟨.identifier name, line⟩ :: ⟨.symbol .colon, colon⟩ :: rest)

variable {name : String} {line : Nat} {rest spelled other : List Lexeme}

/-- A token that starts no label stands before it. -/
theorem SpelledLabel.of_cons (spells : SpelledLabel name line rest spelled) {l : Lexeme}
    {ts before : List Lexeme} (same : l :: ts = before ++ spelled)
    (outside : l.token.startsLabel = false) :
    ∃ left, before = l :: left ∧ ts = left ++ spelled := by
  cases before with
  | nil =>
    cases spells <;> (cases same; cases outside)
  | cons first left =>
    cases same
    exact ⟨left, rfl, rfl⟩

/-- Tokens without a part of a label end before it, or with its name. -/
theorem SpelledLabel.split (spells : SpelledLabel name line rest spelled)
    {front after before : List Lexeme} (plain : isPlain front = true)
    (same : front ++ after = before ++ spelled) :
    (∃ left, before = front ++ left ∧ after = left ++ spelled) ∨
      ∃ colon, after = ⟨.symbol .colon, colon⟩ :: rest := by
  induction front generalizing before with
  | nil => exact Or.inl ⟨before, rfl, same⟩
  | cons l front ih =>
    obtain ⟨plainFirst, plainRest⟩ := Bool.and_eq_true_iff.1 plain
    cases before with
    | cons first before =>
      obtain ⟨rfl, behind⟩ := List.cons.inj same
      rcases ih plainRest behind with ⟨left, rfl, ends⟩ | stuck
      · exact Or.inl ⟨left, rfl, ends⟩
      · exact Or.inr stuck
    | nil =>
      cases spells with
      | joined =>
        cases same
        cases plainFirst
      | apart colon =>
        cases front with
        | nil =>
          cases same
          exact Or.inr ⟨colon, rfl⟩
        | cons second front =>
          cases same
          cases plainRest

/-- A phrase that takes the same front whatever follows ends before the label, and then it is a
phrase before any other tokens, or it ends with the name. -/
theorem TakesFront.split {phrase : List Lexeme → List Lexeme → Prop} {before after : List Lexeme}
    (takes : TakesFront phrase (before ++ spelled) after)
    (spells : SpelledLabel name line rest spelled) :
    (∃ left, after = left ++ spelled ∧ ∀ other, phrase (before ++ other) (left ++ other)) ∨
      ∃ colon, after = ⟨.symbol .colon, colon⟩ :: rest := by
  obtain ⟨front, same, plain, again⟩ := takes
  rcases spells.split plain same.symm with ⟨left, rfl, ends⟩ | stuck
  · refine Or.inl ⟨left, ends, fun other => ?_⟩
    rw [List.append_assoc]
    exact again (left ++ other)
  · exact Or.inr stuck

theorem SizePhrase.typeAhead {ts after : List Lexeme} {size : Option Expr} {type : ElementType}
    {last : Nat} (phrase : SizePhrase ts size (⟨.keyword type.keyword, last⟩ :: after)) :
    Grammar.typeAhead ts = true := by
  cases phrase with
  | scalar => cases type <;> rfl
  | vector => rfl

/-- The scan for a declaration comes to the same with either spelling behind any tokens. -/
theorem StartsDeclaration.respelled (spells : SpelledLabel name line rest spelled)
    (noType : typeAhead rest = false) {before : List Lexeme}
    (starts : StartsDeclaration (before ++ spelled)) (other : List Lexeme) :
    StartsDeclaration (before ++ other) := by
  obtain ⟨names, colon, k, last, after, opens, listed⟩ := starts
  have scans := listed.takesFront fun _ _ _ => NamePhrase.takesFront
  rcases scans.split spells with ⟨left, ends, again⟩ | ⟨_, stuck⟩
  · obtain ⟨left, rfl, typed⟩ := spells.of_cons ends rfl
    obtain ⟨left, rfl, _⟩ := spells.of_cons typed rfl
    exact ⟨names, colon, k, last, _, opens, again other⟩
  · cases stuck
    cases opens.symm.trans noType

theorem startsDeclaration_respelled (spells : SpelledLabel name line rest spelled)
    (others : SpelledLabel name line rest other) (noType : typeAhead rest = false)
    (before : List Lexeme) :
    startsDeclaration (before ++ spelled) = startsDeclaration (before ++ other) := by
  rw [Bool.eq_iff_iff, startsDeclaration_iff, startsDeclaration_iff]
  exact ⟨fun starts => starts.respelled spells noType other,
    fun starts => starts.respelled others noType spelled⟩

theorem SpelledLabel.startsDeclaration_eq_false (spells : SpelledLabel name line rest spelled)
    (noType : typeAhead rest = false) : startsDeclaration spelled = false := by
  cases spells with
  | joined => rfl
  | apart => exact noType

theorem DeclarationPhrase.respelled (spells : SpelledLabel name line rest spelled)
    (noType : typeAhead rest = false) {before after : List Lexeme} {s : Statement}
    (phrase : DeclarationPhrase (before ++ spelled) s after) :
    (∃ left, after = left ++ spelled ∧
        ∀ other, DeclarationPhrase (before ++ other) s (left ++ other)) ∨
      ∃ colon, after = ⟨.symbol .colon, colon⟩ :: rest := by
  cases before with
  | nil =>
    have starts := phrase.startsDeclaration
    rw [List.nil_append, spells.startsDeclaration_eq_false noType] at starts
    cases starts
  | cons l before =>
    cases phrase with
    | mk listed sized =>
      have names : TakesFront _ (l :: before ++ spelled) _ :=
        listed.takesFront fun _ _ _ => NamePhrase.takesFront
      rcases names.split spells with ⟨left, ends, again⟩ | ⟨_, stuck⟩
      · obtain ⟨left, rfl, rfl⟩ := spells.of_cons ends rfl
        have sizes := sized.takesFront.closed [⟨.keyword _, _⟩] rfl id
        rcases sizes.split spells with ⟨left, rfl, typed⟩ | stuck
        · exact Or.inl ⟨left, rfl, fun other => .mk (again other) (typed other)⟩
        · exact Or.inr stuck
      · cases stuck
        cases sized.typeAhead.symm.trans noType

/-- A phrase that starts with tokens before a label, seen with the label in another spelling. -/
inductive Respelled (name : String) (line : Nat) (rest spelled other : List Lexeme) (part : Part)
    (before : List Lexeme) (built : List Statement) (after : List Lexeme) : Prop
  | ahead {left : List Lexeme} (ends : after = left ++ spelled)
      (phrase : Phrase part (before ++ other) built (left ++ other))
  | read (phrase : Phrase part (before ++ other) built after)
      (listed : .label name line ∈ allOf built)
  | stuck {colon : Nat} (next : after = ⟨.symbol .colon, colon⟩ :: rest)

theorem Respelled.of_takesFront {part : Part} {before after : List Lexeme}
    {built : List Statement} (spells : SpelledLabel name line rest spelled)
    (takes : TakesFront (fun ts after => Phrase part ts built after) (before ++ spelled) after) :
    Respelled name line rest spelled other part before built after := by
  rcases takes.split spells with ⟨left, ends, again⟩ | ⟨_, next⟩
  · exact .ahead ends (again other)
  · exact .stuck next

/-- Tokens in front of a phrase make no difference to the label. -/
theorem Respelled.behind {part whole : Part} {before after : List Lexeme}
    {inner built : List Statement} (opening : List Lexeme)
    (respelled : Respelled name line rest spelled other part before inner after)
    (grown : ∀ {after}, Phrase part (before ++ other) inner after →
      Phrase whole (opening ++ (before ++ other)) built after)
    (inside : ∀ s ∈ allOf inner, s ∈ allOf built) :
    Respelled name line rest spelled other whole (opening ++ before) built after := by
  cases respelled with
  | ahead ends phrase =>
    refine .ahead ends ?_
    rw [List.append_assoc]
    exact grown phrase
  | read phrase listed =>
    refine .read ?_ (inside _ listed)
    rw [List.append_assoc]
    exact grown phrase
  | stuck next => exact .stuck next

/-- The condition of an `if` ends before the label, since its branch does not start at a colon. -/
theorem ExprPhrase.split_condition (spells : SpelledLabel name line rest spelled)
    {head «then» : Nat} {ts between before : List Lexeme} {condition : Expr}
    (tested : ExprPhrase (.binary .relational) ts condition
      (⟨.keyword .then_, «then»⟩ :: between))
    (same : ⟨.keyword .if_, head⟩ :: ts = before ++ spelled) :
    ∃ opening left, before = ⟨.keyword .if_, head⟩ :: opening ∧ between = left ++ spelled ∧
      ∀ other, ExprPhrase (.binary .relational) (opening ++ other) condition
        (⟨.keyword .then_, «then»⟩ :: (left ++ other)) := by
  obtain ⟨opening, rfl, rfl⟩ := spells.of_cons same rfl
  rcases tested.takesFront.split spells with ⟨_, ends, again⟩ | ⟨_, stuck⟩
  · obtain ⟨left, rfl, starts⟩ := spells.of_cons ends rfl
    exact ⟨opening, left, rfl, starts, again⟩
  · cases stuck

/-- Either spelling is the label of an item. -/
theorem SpelledLabel.phrase (spells : SpelledLabel name line rest spelled)
    (noType : typeAhead rest = false) {after : List Lexeme} {labelled : List Statement}
    (inner : Phrase .item rest labelled after) :
    Phrase .item spelled (.label name line :: labelled) after := by
  have free := spells.startsDeclaration_eq_false noType
  cases spells with
  | joined => exact .label inner
  | apart colon =>
    refine .name (fun starts => ?_) inner
    cases (startsDeclaration_iff.2 starts).symm.trans free

/-- No spelling makes a token the first one that is not first with the other spelling. -/
theorem SpelledLabel.ne_cons (others : SpelledLabel name line rest other) {l : Lexeme}
    {left ts : List Lexeme} (outside : l.token.startsLabel = false)
    (apart : ∀ ts, left ++ spelled ≠ l :: ts) : left ++ other ≠ l :: ts := by
  intro same
  obtain ⟨left, rfl, _⟩ := others.of_cons same.symm outside
  exact apart _ rfl

theorem startsLabel_of_followsEmpty {t : Token} (follows : followsEmpty t = true) :
    t.startsLabel = false := by
  obtain rfl | rfl | rfl := followsEmpty_iff.1 follows <;> rfl

theorem mem_allOf_append {t : Statement} {first others : List Statement} :
    t ∈ allOf (first ++ others) ↔ t ∈ allOf first ∨ t ∈ allOf others := by
  simp only [mem_allOf, List.mem_append, or_and_right, exists_or]

theorem mem_allOf_single {t s : Statement} : t ∈ allOf [s] ↔ t ∈ s.all := by
  rw [allOf, allOf, List.append_nil]

/-- A phrase with a label somewhere behind its start is the same phrase with the label in another
spelling, or it is stuck before a colon. The induction is on the phrase; what it goes past comes to
the same, and where it reads the label, both spellings have the same tokens behind them. -/
theorem Phrase.respelled (spells : SpelledLabel name line rest spelled)
    (others : SpelledLabel name line rest other) (noType : typeAhead rest = false) {part : Part}
    {ts after : List Lexeme} {built : List Statement} (phrase : Phrase part ts built after)
    {before : List Lexeme} (same : ts = before ++ spelled) :
    Respelled name line rest spelled other part before built after := by
  induction phrase generalizing before with
  | block _ ih =>
    obtain ⟨left, rfl, ends⟩ := spells.of_cons same rfl
    exact (ih ends).behind [⟨.keyword .begin, _⟩] .block fun s inside =>
      mem_allOf_single.2 (List.mem_cons_of_mem _ inside)
  | loop _ ih =>
    obtain ⟨left, rfl, ends⟩ := spells.of_cons same rfl
    exact (ih ends).behind [⟨.keyword .loop, _⟩] .loop fun s inside =>
      mem_allOf_single.2 (List.mem_cons_of_mem _ inside)
  | ifThen tested chosen alone ih =>
    obtain ⟨opening, left, rfl, starts, again⟩ := tested.split_condition spells same
    cases ih starts with
    | ahead ends phrase =>
      subst ends
      exact .ahead rfl (.ifThen (again other) phrase fun _ _ => others.ne_cons rfl (alone _))
    | read phrase listed =>
      refine .read (.ifThen (again other) phrase alone) (mem_allOf_single.2 ?_)
      exact List.mem_cons_of_mem _ (mem_allOf_single.1 listed)
    | stuck next => exact .stuck next
  | ifThenElse tested chosen replaced ih ihOther =>
    obtain ⟨opening, left, rfl, starts, again⟩ := tested.split_condition spells same
    cases ih starts with
    | ahead ends phrase =>
      obtain ⟨left, rfl, starts⟩ := spells.of_cons ends rfl
      cases ihOther starts with
      | ahead ends replacing =>
        exact .ahead ends (.ifThenElse (again other) phrase replacing)
      | read replacing listed =>
        refine .read (.ifThenElse (again other) phrase replacing) (mem_allOf_single.2 ?_)
        exact List.mem_cons_of_mem _ (List.mem_append_right _ (mem_allOf_single.1 listed))
      | stuck next => exact .stuck next
    | read phrase listed =>
      refine .read (.ifThenElse (again other) phrase replaced) (mem_allOf_single.2 ?_)
      exact List.mem_cons_of_mem _ (List.mem_append_left _ (mem_allOf_single.1 listed))
    | stuck next => cases next
  | @goto line label name after =>
    refine .of_takesFront spells (same ▸ ?_)
    exact .tokens [⟨.keyword .goto, line⟩, ⟨.identifier name, label⟩] rfl fun _ => .goto
  | read listed =>
    refine .of_takesFront spells (same ▸ ?_)
    exact (listed.takesFront fun _ _ _ => TargetPhrase.takesFront).behind [⟨.keyword .read, _⟩] rfl
      .read
  | write listed =>
    refine .of_takesFront spells (same ▸ ?_)
    exact (listed.takesFront fun _ _ _ => WriteItemPhrase.takesFront).behind
      [⟨.keyword .write, _⟩] rfl .write
  | assign placed valued =>
    refine .of_takesFront spells (same ▸ ?_)
    exact placed.takesFront.seq [⟨.symbol .assign, _⟩] rfl valued.takesFront .assign
  | empty follows =>
    obtain ⟨left, rfl, rfl⟩ := spells.of_cons same (startsLabel_of_followsEmpty follows)
    exact .ahead same (.empty follows)
  | @label _ _ _ _ labelled inner ih =>
    cases before with
    | nil =>
      cases spells with
      | joined =>
        cases same
        exact .read (others.phrase noType inner) List.mem_cons_self
      | apart => cases same
    | cons l left =>
      obtain ⟨rfl, ends⟩ := List.cons.inj same
      exact (ih ends).behind [⟨.label _, _⟩] .label fun s inside => List.mem_cons_of_mem _ inside
  | name free inner ih =>
    cases before with
    | nil =>
      cases spells with
      | joined => cases same
      | apart =>
        cases same
        exact .read (others.phrase noType inner) List.mem_cons_self
    | cons first before =>
      cases before with
      | nil => cases spells <;> cases same
      | cons second left =>
        obtain ⟨rfl, behind⟩ := List.cons.inj same
        obtain ⟨rfl, rfl⟩ := List.cons.inj behind
        refine (ih rfl).behind [⟨.identifier _, _⟩, ⟨.symbol .colon, _⟩] (.name fun starts => ?_)
          fun s inside => List.mem_cons_of_mem _ inside
        have again : StartsDeclaration ([_, _] ++ left ++ other) := starts
        exact free (again.respelled others noType spelled)
  | declared inner =>
    subst same
    rcases inner.respelled spells noType with ⟨left, ends, again⟩ | ⟨_, next⟩
    · exact .ahead ends (.declared (again other))
    · exact .stuck next
  | single _ ih => exact (ih same).behind [] .single fun s inside => inside
  | close =>
    obtain ⟨left, rfl, ends⟩ := spells.of_cons same rfl
    exact .ahead ends .close
  | @last line ts after items given inner ih =>
    -- The item does not start at this `end` with the other spelling either.
    have opens : ∀ left, before ++ spelled ≠ ⟨.keyword .end_, line⟩ :: left := by
      intro left starts
      rw [same, starts] at inner
      cases inner.at_end
      exact given (same.trans starts)
    have stays : ∀ left, before ++ other ≠ ⟨.keyword .end_, line⟩ :: left :=
      fun left => others.ne_cons rfl opens
    cases ih same with
    | ahead ends phrase =>
      obtain ⟨left, rfl, behind⟩ := spells.of_cons ends rfl
      exact .ahead behind (.last (stays _) phrase)
    | read phrase listed => exact .read (.last (stays _) phrase) listed
    | stuck next => cases next
  | cons inner remaining ih ihRest =>
    cases ih same with
    | ahead ends phrase =>
      obtain ⟨left, rfl, starts⟩ := spells.of_cons ends rfl
      cases ihRest starts with
      | ahead ends others => exact .ahead ends (.cons phrase others)
      | read others listed =>
        exact .read (.cons phrase others) (mem_allOf_append.2 (Or.inr listed))
      | stuck next => exact .stuck next
    | read phrase listed =>
      exact .read (.cons phrase remaining) (mem_allOf_append.2 (Or.inl listed))
    | stuck next => cases next

theorem ProgramPhrase.respelled (spells : SpelledLabel name line rest spelled)
    (others : SpelledLabel name line rest other) (noType : typeAhead rest = false)
    {before : List Lexeme} {p : Program} (phrase : ProgramPhrase (before ++ spelled) p) :
    ProgramPhrase (before ++ other) p ∧ .label name line ∈ p.all := by
  obtain ⟨ts, after, begins, inner, only⟩ := phrase
  obtain ⟨left, rfl, starts⟩ := spells.of_cons begins.symm rfl
  cases inner.respelled spells others noType starts with
  | ahead ends phrase =>
    -- Behind a program there are only semicolons.
    subst ends
    have semicolons := (List.forall_mem_append.1 only).2
    cases spells with
    | joined | apart => cases (List.forall_mem_cons.1 semicolons).1
  | read phrase listed => exact ⟨⟨_, after, rfl, phrase, only⟩, listed⟩
  | stuck next =>
    subst next
    cases (List.forall_mem_cons.1 only).1

theorem SpelledLabel.label?_eq (spells : SpelledLabel name line rest spelled)
    (noType : typeAhead rest = false) :
    ∃ shorter, label? spelled = some ⟨(name, line), rest, shorter⟩ := by
  cases spells with
  | joined => exact ⟨_, rfl⟩
  | apart => exact ⟨_, if_neg (Bool.eq_false_iff.1 noType)⟩

/-- No statement starts with a label. -/
theorem SpelledLabel.statement_ne_ok (spells : SpelledLabel name line rest spelled)
    (noType : typeAhead rest = false) (r : Parsed Statement (spelled.length + 1)) :
    statement spelled ≠ .ok r := by
  intro parsed
  have phrase : Phrase .statement spelled [r.value] r.rest := (statement_derives parsed).phrase
  obtain ⟨_, marked⟩ := spells.label?_eq noType
  cases marked.symm.trans phrase.plain.1

theorem SpelledLabel.declaration_ne_ok (spells : SpelledLabel name line rest spelled)
    (noType : typeAhead rest = false) (r : Parsed Statement spelled.length) :
    declaration spelled ≠ .ok r := by
  intro parsed
  have starts := (declarationPhrase_of_declaration parsed).startsDeclaration
  cases starts.symm.trans (spells.startsDeclaration_eq_false noType)

/-- Both spellings of a label are read alike. Where no type follows, a label token and a name with a
colon on any line are accepted in the same places, and with the same tree, which has the label in
it. Neither is taken for a declaration, also not behind other names, nor for an assignment or
another statement. -/
theorem label_spelled_alike (before after : List Lexeme) (name : String) (line colon : Nat)
    (noType : typeAhead after = false) :
    (∀ p, program (before ++ ⟨.label name, line⟩ :: after) = .ok p ↔
      program (before ++ ⟨.identifier name, line⟩ :: ⟨.symbol .colon, colon⟩ :: after) = .ok p) ∧
    (∀ p, program (before ++ ⟨.label name, line⟩ :: after) = .ok p → .label name line ∈ p.all) ∧
    (∀ front, startsDeclaration (front ++ ⟨.label name, line⟩ :: after) =
      startsDeclaration
        (front ++ ⟨.identifier name, line⟩ :: ⟨.symbol .colon, colon⟩ :: after)) ∧
    ∀ spelled, SpelledLabel name line after spelled →
      (∃ shorter, label? spelled = some ⟨(name, line), after, shorter⟩) ∧
      (∀ r, declaration spelled ≠ .ok r) ∧ ∀ r, statement spelled ≠ .ok r := by
  have one : SpelledLabel name line after _ := .joined
  have two : SpelledLabel name line after _ := .apart colon
  refine ⟨fun p => ?_, fun p parsed => ?_, fun front => ?_, fun spelled spells => ?_⟩
  · rw [(program_iff_phrase _).1, (program_iff_phrase _).1]
    exact ⟨fun phrase => (phrase.respelled one two noType).1,
      fun phrase => (phrase.respelled two one noType).1⟩
  · have phrase := ((program_iff_phrase _).1 p).1 parsed
    exact (phrase.respelled one one noType).2
  · exact startsDeclaration_respelled one two noType front
  · exact ⟨spells.label?_eq noType, spells.declaration_ne_ok noType, spells.statement_ne_ok noType⟩

/-- The colon of a label may stand on a line of its own, also in a branch. -/
theorem label_spelled_alike_in_branch :
    let before : List Lexeme := [⟨.keyword .begin, 1⟩, ⟨.keyword .if_, 1⟩, ⟨.integer 1, 1⟩,
      ⟨.keyword .then_, 1⟩, ⟨.keyword .begin, 1⟩]
    let after : List Lexeme := [⟨.keyword .goto, 4⟩, ⟨.identifier "a", 4⟩, ⟨.keyword .end_, 4⟩,
      ⟨.keyword .end_, 5⟩]
    let p : Program :=
      ⟨[.ifThen (.integer 1 1) (.block [.label "a" 2, .goto "a" 4] 1) 1], 1⟩
    typeAhead after = false ∧ program (before ++ ⟨.label "a", 2⟩ :: after) = .ok p ∧
      program (before ++ ⟨.identifier "a", 2⟩ :: ⟨.symbol .colon, 3⟩ :: after) = .ok p ∧
      .label "a" 2 ∈ p.all := by
  intro before after p
  have noType : typeAhead after = false := rfl
  have parsed : program (before ++ ⟨.label "a", 2⟩ :: after) = .ok p := by
    with_unfolding_all rfl
  obtain ⟨alike, listed, _⟩ := label_spelled_alike before after "a" 2 3 noType
  exact ⟨noType, parsed, (alike p).1 parsed, listed p parsed⟩

end Grammar

end GotoLang
