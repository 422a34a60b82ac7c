import GotoLang.Proofs.ExpressionPhrase

set_option autoImplicit false

namespace GotoLang

def ElementType.keyword : ElementType → Keyword
  | integer => .integer
  | real => .real

def Layout.keyword : Layout → Keyword
  | space => .space
  | tab => .tab
  | skip => .skip

namespace Grammar

/-- The front of a list of tokens is one or more phrases with commas between them. -/
inductive ListPhrase {α : Type} (phrase : List Lexeme → α → List Lexeme → Prop) :
    List Lexeme → List α → List Lexeme → Prop
  | one {ts after : List Lexeme} {a : α} (only : phrase ts a after) :
      ListPhrase phrase ts [a] after
  | more {comma : Nat} {ts between after : List Lexeme} {a : α} {others : List α}
      (first : phrase ts a (⟨.symbol .comma, comma⟩ :: between))
      (rest : ListPhrase phrase between others after) : ListPhrase phrase ts (a :: others) after

def NamePhrase (ts : List Lexeme) (name : String) (after : List Lexeme) : Prop :=
  ∃ line, ts = ⟨.identifier name, line⟩ :: after

inductive TargetPhrase : List Lexeme → Target → List Lexeme → Prop
  | mk {name : String} {line : Nat} {ts after : List Lexeme} {index : Option Expr}
      (indexed : IndexPhrase ts index after) :
      TargetPhrase (⟨.identifier name, line⟩ :: ts) ⟨name, index, line⟩ after

inductive WriteItemPhrase : List Lexeme → WriteItem → List Lexeme → Prop
  | layout {l : Layout} {line : Nat} {after : List Lexeme} :
      WriteItemPhrase (⟨.keyword l.keyword, line⟩ :: after) (.layout l) after
  | expr {ts after : List Lexeme} {e : Expr}
      (inner : ExprPhrase (.binary .relational) ts e after) : WriteItemPhrase ts (.expr e) after

inductive SizePhrase : List Lexeme → Option Expr → List Lexeme → Prop
  | scalar {after : List Lexeme} : SizePhrase after none after
  | vector {keyword opened closed of : Nat} {ts after : List Lexeme} {size : Expr}
      (inner : ExprPhrase (.binary .relational) ts size
        (⟨.symbol .rightBracket, closed⟩ :: ⟨.keyword .of, of⟩ :: after)) :
      SizePhrase (⟨.keyword .vector, keyword⟩ :: ⟨.symbol .leftBracket, opened⟩ :: ts) (some size)
        after

/-- The front of a list of tokens is a declaration. Its line is that of the first name. -/
inductive DeclarationPhrase : List Lexeme → Statement → List Lexeme → Prop
  | mk {l : Lexeme} {ts between after : List Lexeme} {names : List String} {size : Option Expr}
      {type : ElementType} {colon last : Nat}
      (listed : ListPhrase NamePhrase (l :: ts) names (⟨.symbol .colon, colon⟩ :: between))
      (sized : SizePhrase between size (⟨.keyword type.keyword, last⟩ :: after)) :
      DeclarationPhrase (l :: ts) (.declare names size type l.line) after

/-- A list of tokens starts like a declaration: names, a colon and a word that opens a type. -/
def StartsDeclaration (ts : List Lexeme) : Prop :=
  ∃ names colon k line rest, k.opensType = true ∧
    ListPhrase NamePhrase ts names (⟨.symbol .colon, colon⟩ :: ⟨.keyword k, line⟩ :: rest)

/-- The kinds of phrases that statements are built from. -/
inductive Part where
  | statement
  | item
  | body

/-- The front of a list of tokens is a part of a program that stands for statements, and other
tokens are left. -/
inductive Phrase : Part → List Lexeme → List Statement → List Lexeme → Prop
  | block {line : Nat} {ts after : List Lexeme} {body : List Statement}
      (inner : Phrase .body ts body after) :
      Phrase .statement (⟨.keyword .begin, line⟩ :: ts) [.block body line] after
  | loop {line : Nat} {ts after : List Lexeme} {body : List Statement}
      (inner : Phrase .body ts body after) :
      Phrase .statement (⟨.keyword .loop, line⟩ :: ts) [.loop body line] after
  | ifThen {line «then» : Nat} {ts between after : List Lexeme} {condition : Expr}
      {branch : Statement}
      (tested : ExprPhrase (.binary .relational) ts condition
        (⟨.keyword .then_, «then»⟩ :: between))
      (chosen : Phrase .statement between [branch] after)
      (alone : ∀ «else» rest, after ≠ ⟨.keyword .else_, «else»⟩ :: rest) :
      Phrase .statement (⟨.keyword .if_, line⟩ :: ts) [.ifThen condition branch line] after
  | ifThenElse {line «then» «else» : Nat} {ts between otherwise after : List Lexeme}
      {condition : Expr} {branch other : Statement}
      (tested : ExprPhrase (.binary .relational) ts condition
        (⟨.keyword .then_, «then»⟩ :: between))
      (chosen : Phrase .statement between [branch] (⟨.keyword .else_, «else»⟩ :: otherwise))
      (replaced : Phrase .statement otherwise [other] after) :
      Phrase .statement (⟨.keyword .if_, line⟩ :: ts) [.ifThenElse condition branch other line]
        after
  | goto {line named : Nat} {name : String} {after : List Lexeme} :
      Phrase .statement (⟨.keyword .goto, line⟩ :: ⟨.identifier name, named⟩ :: after)
        [.goto name line] after
  | read {line : Nat} {ts after : List Lexeme} {targets : List Target}
      (listed : ListPhrase TargetPhrase ts targets after) :
      Phrase .statement (⟨.keyword .read, line⟩ :: ts) [.read targets line] after
  | write {line : Nat} {ts after : List Lexeme} {items : List WriteItem}
      (listed : ListPhrase WriteItemPhrase ts items after) :
      Phrase .statement (⟨.keyword .write, line⟩ :: ts) [.write items line] after
  | assign {assign : Nat} {ts between after : List Lexeme} {target : Target} {value : Expr}
      (placed : TargetPhrase ts target (⟨.symbol .assign, assign⟩ :: between))
      (valued : ExprPhrase (.binary .relational) between value after) :
      Phrase .statement ts [.assign target value] after
  | empty {l : Lexeme} {after : List Lexeme} (follows : followsEmpty l.token = true) :
      Phrase .statement (l :: after) [.empty l.line] (l :: after)
  | label {name : String} {line : Nat} {ts after : List Lexeme} {labelled : List Statement}
      (inner : Phrase .item ts labelled after) :
      Phrase .item (⟨.label name, line⟩ :: ts) (.label name line :: labelled) after
  | name {name : String} {line colon : Nat} {ts after : List Lexeme} {labelled : List Statement}
      (free : ¬ StartsDeclaration (⟨.identifier name, line⟩ :: ⟨.symbol .colon, colon⟩ :: ts))
      (inner : Phrase .item ts labelled after) :
      Phrase .item (⟨.identifier name, line⟩ :: ⟨.symbol .colon, colon⟩ :: ts)
        (.label name line :: labelled) after
  | declared {ts after : List Lexeme} {s : Statement} (inner : DeclarationPhrase ts s after) :
      Phrase .item ts [s] after
  | single {ts after : List Lexeme} {s : Statement} (inner : Phrase .statement ts [s] after) :
      Phrase .item ts [s] after
  | close {line : Nat} {after : List Lexeme} :
      Phrase .body (⟨.keyword .end_, line⟩ :: after) [] after
  | last {line : Nat} {ts after : List Lexeme} {items : List Statement}
      (given : ts ≠ ⟨.keyword .end_, line⟩ :: after)
      (inner : Phrase .item ts items (⟨.keyword .end_, line⟩ :: after)) :
      Phrase .body ts items after
  | cons {semicolon : Nat} {ts between after : List Lexeme} {first others : List Statement}
      (inner : Phrase .item ts first (⟨.symbol .semicolon, semicolon⟩ :: between))
      (rest : Phrase .body between others after) : Phrase .body ts (first ++ others) after

/-- A list of tokens is a program: `begin`, a body with its `end`, and semicolons. -/
def ProgramPhrase (ts : List Lexeme) (p : Program) : Prop :=
  ∃ rest after, ts = ⟨.keyword .begin, p.line⟩ :: rest ∧ Phrase .body rest p.body after ∧
    ∀ l ∈ after, l.token = .symbol .semicolon

theorem eq_cons_of_take? {token : Token} {ts rest : List Lexeme} {u : Unit}
    {shorter : rest.length < ts.length} (taken : take? token ts = some ⟨u, rest, shorter⟩) :
    ∃ l, ts = ⟨token, l⟩ :: rest := by
  cases ts with
  | nil => cases taken
  | cons l rest =>
    by_cases same : l.token = token
    · rw [take?, if_pos same] at taken
      cases taken
      exact ⟨l.line, same ▸ rfl⟩
    · rw [take?, if_neg same] at taken
      cases taken

theorem take?_cons (token : Token) (line : Nat) (rest : List Lexeme) :
    take? token (⟨token, line⟩ :: rest) = some (.one ()) := by
  rw [take?, if_pos rfl]

theorem take?_eq_none_iff {token : Token} {ts : List Lexeme} :
    take? token ts = none ↔ ∀ line rest, ts ≠ ⟨token, line⟩ :: rest := by
  constructor
  · rintro nothing line rest rfl
    rw [take?_cons] at nothing
    cases nothing
  · intro other
    cases taken : take? token ts with
    | none => rfl
    | some r =>
      obtain ⟨line, same⟩ := eq_cons_of_take? taken
      exact absurd same (other line _)

theorem listPhrase_of_commaList {α : Type} {item : (ts : List Lexeme) → Parse α ts.length}
    {phrase : List Lexeme → α → List Lexeme → Prop}
    (sound : ∀ {ts : List Lexeme} {r : Parsed α ts.length}, item ts = .ok r →
      phrase ts r.value r.rest)
    {ts : List Lexeme} {r : Parsed (List α) ts.length} (parsed : commaList item ts = .ok r) :
    ListPhrase phrase ts r.value r.rest := by
  rw [commaList.eq_def] at parsed
  obtain ⟨⟨first, rest, shorter⟩, found, parsed⟩ := bind_eq_ok.1 parsed
  dsimp only at parsed
  split at parsed
  · cases pure_eq_ok.1 parsed
    exact .one (sound found)
  · rename_i taken
    obtain ⟨others, listed, built⟩ := bind_eq_ok.1 parsed
    cases pure_eq_ok.1 built
    obtain ⟨comma, rfl⟩ := eq_cons_of_take? taken
    exact .more (sound found) (listPhrase_of_commaList sound listed)
  termination_by ts.length

theorem eq_cons_of_identifier {line l : Nat} {name : String} {ts rest : List Lexeme}
    {shorter : rest.length < ts.length}
    (named : identifier line ts = .ok ⟨(name, l), rest, shorter⟩) :
    ts = ⟨.identifier name, l⟩ :: rest := by
  unfold identifier at named
  split at named <;> cases named
  rfl

theorem targetPhrase_of_target {line : Nat} {ts : List Lexeme} {r : Parsed Target ts.length}
    (parsed : target line ts = .ok r) : TargetPhrase ts r.value r.rest := by
  obtain ⟨⟨named, rest, shorter⟩, found, parsed⟩ := bind_eq_ok.1 parsed
  obtain ⟨place, indexed, built⟩ := bind_eq_ok.1 parsed
  cases pure_eq_ok.1 built
  obtain rfl := eq_cons_of_identifier found
  exact .mk (indexPhrase_of_index indexed)

theorem namePhrase_of_declaredName {line : Nat} {ts : List Lexeme} {r : Parsed String ts.length}
    (parsed : declaredName line ts = .ok r) : NamePhrase ts r.value r.rest := by
  obtain ⟨named, found, built⟩ := bind_eq_ok.1 parsed
  cases pure_eq_ok.1 built
  exact ⟨named.value.2, eq_cons_of_identifier found⟩

theorem writeItemPhrase_of_writeItem {ts : List Lexeme} {r : Parsed WriteItem ts.length}
    (parsed : writeItem ts = .ok r) : WriteItemPhrase ts r.value r.rest := by
  unfold writeItem at parsed
  split at parsed
  · cases pure_eq_ok.1 parsed
    exact .layout (l := .space)
  · cases pure_eq_ok.1 parsed
    exact .layout (l := .tab)
  · cases pure_eq_ok.1 parsed
    exact .layout (l := .skip)
  · obtain ⟨e, found, built⟩ := bind_eq_ok.1 parsed
    cases pure_eq_ok.1 built
    exact .expr (exprPhrase_of_binary found)

theorem sizePhrase_of_vectorSize {line : Nat} {ts : List Lexeme}
    {r : Parsed (Option Expr) (ts.length + 1)} (parsed : vectorSize line ts = .ok r) :
    SizePhrase ts r.value r.rest := by
  unfold vectorSize at parsed
  split at parsed
  · obtain ⟨⟨_, inside, _⟩, opened, parsed⟩ := bind_eq_ok.1 parsed
    obtain ⟨⟨size, behind, _⟩, found, parsed⟩ := bind_eq_ok.1 parsed
    obtain ⟨⟨_, rest, _⟩, closed, parsed⟩ := bind_eq_ok.1 parsed
    obtain ⟨⟨_, after, _⟩, joined, built⟩ := bind_eq_ok.1 parsed
    cases pure_eq_ok.1 built
    obtain ⟨_, rfl⟩ := eq_cons_of_expect opened
    obtain ⟨_, rfl⟩ := eq_cons_of_expect closed
    obtain ⟨_, rfl⟩ := eq_cons_of_expect joined
    exact .vector (exprPhrase_of_binary found)
  · cases pure_eq_ok.1 parsed
    exact .scalar

theorem eq_cons_of_elementType {line : Nat} {type : ElementType} {ts rest : List Lexeme}
    {shorter : rest.length < ts.length} (parsed : elementType line ts = .ok ⟨type, rest, shorter⟩) :
    ∃ l, ts = ⟨.keyword type.keyword, l⟩ :: rest := by
  unfold elementType at parsed
  split at parsed <;> cases parsed <;> exact ⟨_, rfl⟩

theorem declarationPhrase_of_declaration {ts : List Lexeme} {r : Parsed Statement ts.length}
    (parsed : declaration ts = .ok r) : DeclarationPhrase ts r.value r.rest := by
  obtain ⟨⟨names, rest, shorter⟩, listed, parsed⟩ := bind_eq_ok.1 parsed
  obtain ⟨⟨_, between, _⟩, joined, parsed⟩ := bind_eq_ok.1 parsed
  obtain ⟨⟨size, behind, _⟩, sized, parsed⟩ := bind_eq_ok.1 parsed
  obtain ⟨⟨type, after, _⟩, typed, built⟩ := bind_eq_ok.1 parsed
  cases pure_eq_ok.1 built
  obtain ⟨_, rfl⟩ := eq_cons_of_expect joined
  obtain ⟨_, rfl⟩ := eq_cons_of_elementType typed
  have names := listPhrase_of_commaList namePhrase_of_declaredName listed
  cases ts with
  | nil => exact absurd shorter (Nat.not_lt_zero _)
  | cons l rest => exact .mk names (sizePhrase_of_vectorSize sized)

/-- A name and a colon start a declaration exactly when a type is next. -/
theorem startsDeclaration_iff {ts : List Lexeme} :
    startsDeclaration ts = true ↔ StartsDeclaration ts := by
  constructor
  · intro starts
    fun_induction startsDeclaration ts with
    | case1 name line comma rest ih =>
      obtain ⟨names, colon, k, typed, after, opens, listed⟩ := ih starts
      exact ⟨name :: names, colon, k, typed, after, opens, .more ⟨line, rfl⟩ listed⟩
    | case2 name line colon rest =>
      unfold typeAhead at starts
      split at starts
      · exact ⟨[name], colon, _, _, _, starts, .one ⟨line, rfl⟩⟩
      · cases starts
    | case3 => cases starts
  · rintro ⟨names, colon, k, line, rest, opens, listed⟩
    generalize behind : ⟨.symbol .colon, colon⟩ :: ⟨.keyword k, line⟩ :: rest = after at listed
    induction listed with
    | one only =>
      obtain ⟨l, rfl⟩ := only
      subst behind
      exact opens
    | more first _ ih =>
      obtain ⟨l, rfl⟩ := first
      exact ih behind

theorem DeclarationPhrase.startsDeclaration {ts after : List Lexeme} {s : Statement}
    (phrase : DeclarationPhrase ts s after) : Grammar.startsDeclaration ts = true := by
  rw [startsDeclaration_iff]
  cases phrase with
  | mk listed sized =>
    cases sized with
    | scalar =>
      rename_i type colon last
      exact ⟨_, _, type.keyword, _, _, by cases type <;> rfl, listed⟩
    | vector _ => exact ⟨_, _, .vector, _, _, rfl, listed⟩

theorem label?_of_startsDeclaration {ts : List Lexeme} (starts : startsDeclaration ts = true) :
    label? ts = none := by
  unfold label?
  split
  · cases starts
  · rename_i rest
    rw [if_pos (show typeAhead rest = true from starts)]
  · rfl

theorem followsEmpty_iff {t : Token} : followsEmpty t = true ↔
    t = .symbol .semicolon ∨ t = .keyword .end_ ∨ t = .keyword .else_ := by
  constructor
  · intro follows
    unfold followsEmpty at follows
    split at follows
    · exact .inl rfl
    · exact .inr (.inl rfl)
    · exact .inr (.inr rfl)
    · cases follows
  · rintro (rfl | rfl | rfl) <;> rfl

/-- A statement is told from a declaration and from a label by its first tokens. -/
theorem Phrase.plain {ts after : List Lexeme} {built : List Statement}
    (phrase : Phrase .statement ts built after) :
    label? ts = none ∧ startsDeclaration ts = false := by
  cases phrase with
  | block | loop | ifThen | ifThenElse | goto | read | write => exact ⟨rfl, rfl⟩
  | assign placed _ =>
    cases placed with
    | mk indexed => cases indexed <;> exact ⟨rfl, rfl⟩
  | @empty l _ follows =>
    obtain ⟨token, line⟩ := l
    obtain rfl | rfl | rfl := followsEmpty_iff.1 follows <;> exact ⟨rfl, rfl⟩

/-- What stands for each form of derivation. -/
def Form.Means : Form → List Lexeme → List Statement → List Lexeme → Prop
  | .statement => Phrase .statement
  | .conditional line => fun ts => Phrase .statement (⟨.keyword .if_, line⟩ :: ts)
  | .item => Phrase .item
  | .body _ => Phrase .body

theorem eq_cons_of_label? {name : String} {line : Nat} {ts rest : List Lexeme}
    {shorter : rest.length < ts.length} (marked : label? ts = some ⟨(name, line), rest, shorter⟩) :
    ts = ⟨.label name, line⟩ :: rest ∨
      ¬ StartsDeclaration ts ∧
        ∃ colon, ts = ⟨.identifier name, line⟩ :: ⟨.symbol .colon, colon⟩ :: rest := by
  unfold label? at marked
  split at marked
  · cases marked
    exact .inl rfl
  · split at marked
    · cases marked
    · rename_i free
      cases marked
      exact .inr ⟨fun starts => free (startsDeclaration_iff.2 starts), _, rfl⟩
  · cases marked

theorem eq_cons_of_separator {opened : Nat} {closed : Bool} {ts rest : List Lexeme}
    {shorter : rest.length < ts.length}
    (parsed : separator opened ts = .ok ⟨closed, rest, shorter⟩) :
    ∃ line, ts = ⟨if closed then .keyword .end_ else .symbol .semicolon, line⟩ :: rest := by
  unfold separator at parsed
  split at parsed <;> cases parsed <;> exact ⟨_, rfl⟩

/-- What the rules take is a phrase. -/
theorem Derives.phrase {form : Form} {ts after : List Lexeme} {built : List Statement}
    (derives : Derives form ts built after) : form.Means ts built after := by
  induction derives with
  | block _ ih => exact .block ih
  | loop _ ih => exact .loop ih
  | conditional _ ih => exact ih
  | @goto _ _ label named =>
    obtain ⟨⟨name, l⟩, rest, shorter⟩ := label
    obtain rfl := eq_cons_of_identifier named
    exact .goto
  | read listed => exact .read (listPhrase_of_commaList targetPhrase_of_target listed)
  | write listed => exact .write (listPhrase_of_commaList writeItemPhrase_of_writeItem listed)
  | @assign _ _ _ place value placed valued =>
    obtain ⟨⟨_, between, _⟩, joined, parsed⟩ := bind_eq_ok.1 valued
    obtain ⟨inner, found, built⟩ := bind_eq_ok.1 parsed
    cases pure_eq_ok.1 built
    obtain ⟨target, rest, shorter⟩ := place
    obtain ⟨_, rfl⟩ := eq_cons_of_expect joined
    exact .assign (targetPhrase_of_target placed) (exprPhrase_of_binary found)
  | empty follows => exact .empty follows
  | @ifThen _ _ _ _ condition keyword tested joined _ alone ih =>
    obtain ⟨e, rest, shorter⟩ := condition
    obtain ⟨_, between, _⟩ := keyword
    obtain ⟨_, rfl⟩ := eq_cons_of_expect joined
    exact .ifThen (exprPhrase_of_binary tested) ih (take?_eq_none_iff.1 alone)
  | @ifThenElse _ _ _ _ _ _ condition keyword otherwise tested joined _ divided _ ih ihOther =>
    obtain ⟨e, rest, shorter⟩ := condition
    obtain ⟨_, between, _⟩ := keyword
    obtain ⟨_, behind, _⟩ := otherwise
    obtain ⟨_, rfl⟩ := eq_cons_of_expect joined
    obtain ⟨_, rfl⟩ := eq_cons_of_take? divided
    exact .ifThenElse (exprPhrase_of_binary tested) ih ihOther
  | @labelled _ _ _ mark marked _ ih =>
    obtain ⟨⟨name, line⟩, rest, shorter⟩ := mark
    obtain rfl | ⟨free, colon, rfl⟩ := eq_cons_of_label? marked
    · exact .label ih
    · exact .name free ih
  | declared _ _ inner => exact .declared (declarationPhrase_of_declaration inner)
  | single _ _ _ ih => exact .single ih
  | close => exact .close
  | @last _ _ _ _ closed more _ separated ends ih =>
    obtain ⟨_, rest, shorter⟩ := closed
    cases ends
    obtain ⟨_, rfl⟩ := eq_cons_of_separator separated
    exact .last (more _ _) ih
  | @cons _ _ _ _ _ _ closed _ _ separated goesOn _ ih ihRest =>
    obtain ⟨_, rest, shorter⟩ := closed
    cases goesOn
    obtain ⟨_, rfl⟩ := eq_cons_of_separator separated
    exact .cons ih ihRest

end Grammar

end GotoLang
