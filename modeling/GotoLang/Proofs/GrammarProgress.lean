import GotoLang.Proofs.PhraseExtent
import GotoLang.Proofs.UnfinishedProgram

set_option autoImplicit false

namespace GotoLang.Grammar

variable {ts between after : List Lexeme}

def ProperTail (after ts : List Lexeme) : Prop :=
  after <:+ ts ∧ after.length < ts.length

namespace ProperTail

theorem of_suffix_cons {l : Lexeme} (tail : l :: after <:+ ts) : ProperTail after ts :=
  ⟨(List.suffix_cons l after).trans tail, tail.length_le⟩

theorem cons {l : Lexeme} (tail : after <:+ ts) : ProperTail after (l :: ts) :=
  ⟨tail.trans (List.suffix_cons l ts), Nat.lt_succ_of_le tail.length_le⟩

theorem trans (shorter : ProperTail after between) (tail : between <:+ ts) : ProperTail after ts :=
  ⟨shorter.1.trans tail, Nat.lt_of_lt_of_le shorter.2 tail.length_le⟩

end ProperTail

/-- What a phrase of statements leaves: a shorter tail, or all tokens if the first one may follow an
empty statement, and then it is one empty statement on the line of that token. -/
inductive Progress (ts : List Lexeme) (built : List Statement) (after : List Lexeme) : Prop
  | took (shorter : ProperTail after ts)
  | empty {l : Lexeme} {rest : List Lexeme} (tokens : ts = l :: rest)
      (follows : followsEmpty l.token = true) (leaves : after = ts) (only : built = [.empty l.line])

theorem Progress.suffix {built : List Statement} (progress : Progress ts built after) :
    after <:+ ts := by
  cases progress with
  | took shorter => exact shorter.1
  | empty _ _ leaves _ => exact leaves ▸ List.suffix_rfl

theorem DeclarationPhrase.properTail {s : Statement} (phrase : DeclarationPhrase ts s after) :
    ProperTail after ts := by
  cases phrase with
  | mk listed sized =>
    have names := (listed.takesFront fun _ _ _ => NamePhrase.takesFront).suffix
    exact (ProperTail.of_suffix_cons sized.takesFront.suffix).trans
      ((List.suffix_cons _ _).trans names)

theorem TargetPhrase.properTail {t : Target} (phrase : TargetPhrase ts t after) :
    ProperTail after ts := by
  cases phrase with
  | mk indexed => exact .cons indexed.takesFront.suffix

theorem Phrase.progress {part : Part} {built : List Statement}
    (phrase : Phrase part ts built after) : Progress ts built after := by
  induction phrase with
  | block _ ih | loop _ ih | label _ ih => exact .took (.cons ih.suffix)
  | ifThen tested _ _ ih =>
    have condition := tested.takesFront.suffix
    exact .took (.cons ((ih.suffix.trans (List.suffix_cons _ _)).trans condition))
  | ifThenElse tested _ _ ih ihOther =>
    have condition := tested.takesFront.suffix
    have branch := (ih.suffix.trans (List.suffix_cons _ _)).trans condition
    exact .took (.cons ((ihOther.suffix.trans (List.suffix_cons _ _)).trans branch))
  | goto => exact .took (.cons (List.suffix_cons _ _))
  | read listed =>
    exact .took (.cons (listed.takesFront fun _ _ _ => TargetPhrase.takesFront).suffix)
  | write listed =>
    exact .took (.cons (listed.takesFront fun _ _ _ => WriteItemPhrase.takesFront).suffix)
  | assign placed valued =>
    exact .took ((ProperTail.cons valued.takesFront.suffix).trans placed.takesFront.suffix)
  | empty follows => exact .empty rfl follows rfl rfl
  | name _ _ ih => exact .took (.cons (ih.suffix.trans (List.suffix_cons _ _)))
  | declared inner => exact .took inner.properTail
  | single _ ih => exact ih
  | close => exact .took (.cons List.suffix_rfl)
  | last _ _ ih => exact .took (.of_suffix_cons ih.suffix)
  | cons _ _ ih ihRest =>
    exact .took ((ProperTail.cons ihRest.suffix).trans ih.suffix)

/-- The rule comes to an end on all tokens: it fails, or what it gives and leaves is as told. -/
def Concludes {α : Type} {bound : List Lexeme → Nat} (told : List Lexeme → α → List Lexeme → Prop)
    (rule : (ts : List Lexeme) → Parse α (bound ts)) : Prop :=
  ∀ ts, (∃ e, rule ts = .error e) ∨ ∃ value rest, (rule ts).Gives value rest ∧ told ts value rest

abbrev Advances {α : Type} {bound : List Lexeme → Nat}
    (rule : (ts : List Lexeme) → Parse α (bound ts)) : Prop :=
  Concludes (fun ts _ rest => ProperTail rest ts) rule

theorem Concludes.of_ok {α : Type} {bound : List Lexeme → Nat}
    {told : List Lexeme → α → List Lexeme → Prop} {rule : (ts : List Lexeme) → Parse α (bound ts)}
    (sound : ∀ ts r, rule ts = .ok r → told ts r.value r.rest) : Concludes told rule := by
  intro ts
  cases parsed : rule ts with
  | error e => exact Or.inl ⟨e, rfl⟩
  | ok r => exact Or.inr ⟨r.value, r.rest, ⟨r.shorter, rfl⟩, sound ts r parsed⟩

/-- A rule that always takes a token leaves fewer tokens by its type. -/
theorem Advances.of_suffix {α : Type} {rule : (ts : List Lexeme) → Parse α ts.length}
    (sound : ∀ ts r, rule ts = .ok r → r.rest <:+ ts) : Advances rule :=
  .of_ok fun ts r parsed => ⟨sound ts r parsed, r.shorter⟩

theorem binary_advances (level : Level) : Advances (binary level) :=
  .of_suffix fun _ _ parsed => (exprPhrase_of_binary parsed).takesFront.suffix

theorem unary_advances : Advances unary :=
  .of_suffix fun _ _ parsed => (exprPhrase_of_unary parsed).takesFront.suffix

theorem term_advances : Advances term :=
  .of_suffix fun _ _ parsed => (exprPhrase_of_term parsed).takesFront.suffix

theorem target_advances (line : Nat) : Advances (target line) :=
  .of_suffix fun _ _ parsed => (targetPhrase_of_target parsed).properTail.1

theorem declaration_advances : Advances declaration :=
  .of_suffix fun _ _ parsed => (declarationPhrase_of_declaration parsed).properTail.1

theorem statement_progress {r : Parsed Statement (ts.length + 1)} (parsed : statement ts = .ok r) :
    Progress ts [r.value] r.rest :=
  (statement_derives parsed).phrase.progress

theorem item_progress {r : Parsed (List Statement) (ts.length + 1)} (parsed : item ts = .ok r) :
    Progress ts r.value r.rest :=
  (item_derives parsed).phrase.progress

theorem body_advances (opened : Nat) : Advances (body opened) :=
  .of_suffix fun _ _ parsed => (body_derives parsed).phrase.progress.suffix

/-- The keyword of a conditional stands in front of its phrase, so the bound of the rule tells that
a token behind it was taken. -/
theorem conditional_advances (line : Nat) : Advances (conditional line) := by
  refine .of_suffix fun ts r parsed => ?_
  have whole : Phrase .statement (⟨.keyword .if_, line⟩ :: ts) [r.value] r.rest :=
    (conditional_derives parsed).phrase
  rcases List.suffix_cons_iff.1 whole.progress.suffix with all | tail
  · have shorter := r.shorter
    rw [all, List.length_cons] at shorter
    omega
  · exact tail

/-- What a turn of the loop of a body comes to: the body is closed, or another item was read. -/
inductive Turn where
  | closed (rest : List Lexeme)
  | goesOn (read : List Statement) (rest : List Lexeme)

/-- The end of a turn behind its item: a semicolon is taken, and `end` is left for the next turn. -/
def turnBehind (opened : Nat) (read : List Statement) : List Lexeme → Except SourceError Turn
  | [] => .error ⟨.missingEnd, opened⟩
  | ⟨.symbol .semicolon, _⟩ :: rest => .ok (.goesOn read rest)
  | ⟨.keyword .end_, line⟩ :: rest => .ok (.goesOn read (⟨.keyword .end_, line⟩ :: rest))
  | l :: _ => .error ⟨.expected .separator l.token, l.line⟩

/-- One turn of the loop of a body. It takes `end`, or an item and what stands behind it. -/
def turn (opened : Nat) (ts : List Lexeme) : Except SourceError Turn :=
  match ts with
  | [] => .error ⟨.missingEnd, opened⟩
  | ⟨.keyword .end_, _⟩ :: rest => .ok (.closed rest)
  | ts => do
    let ⟨read, rest, _⟩ ← item ts
    turnBehind opened read rest

/-- The statements and the other tokens that a number of turns come to; nothing if the body is not
read by then. -/
def turns (opened : Nat) :
    Nat → List Lexeme → Option (Except SourceError (List Statement × List Lexeme))
  | 0, _ => none
  | n + 1, ts =>
    match turn opened ts with
    | .error e => some (.error e)
    | .ok (.closed rest) => some (.ok ([], rest))
    | .ok (.goesOn read rest) =>
      (turns opened n rest).map (Except.map fun (others, rest) => (read ++ others, rest))

/-- A turn that goes on has taken a token. -/
theorem properTail_of_turn {opened : Nat} {read : List Statement} {rest : List Lexeme}
    (found : turn opened ts = .ok (.goesOn read rest)) : ProperTail rest ts := by
  unfold turn at found
  split at found
  · cases found
  · cases found
  · rename_i more
    obtain ⟨⟨read, between, short⟩, parsed, found⟩ := bind_eq_ok.1 found
    have progress : Progress ts read between := item_progress parsed
    dsimp only at found
    unfold turnBehind at found
    split at found
    · cases found
    · cases found
      exact .of_suffix_cons progress.suffix
    · cases found
      cases progress with
      | took shorter => exact shorter
      | empty _ _ leaves _ => exact (more _ _ leaves.symm).elim
    · cases found

/-- What a body comes to, without the bound on its tokens. -/
def bodyResult (opened : Nat) (ts : List Lexeme) :
    Except SourceError (List Statement × List Lexeme) :=
  (body opened ts).map fun r => (r.value, r.rest)

theorem bodyResult_end (opened line : Nat) (rest : List Lexeme) :
    bodyResult opened (⟨.keyword .end_, line⟩ :: rest) = .ok ([], rest) := by
  rw [bodyResult, body.eq_def]
  rfl

/-- A turn takes what separates items, apart from `end`. -/
theorem turnBehind_eq (opened : Nat) (read : List Statement) (ts : List Lexeme) :
    turnBehind opened read ts = (separator opened ts).map fun closed =>
      if closed.value then .goesOn read ts else .goesOn read closed.rest := by
  unfold turnBehind
  split
  · rfl
  · rfl
  · rfl
  · rename_i noSemicolon noEnd
    rw [separator]
    · rfl
    · exact noSemicolon
    · exact noEnd

theorem turn_of_ne (nonempty : ts ≠ []) (goesOn : ∀ line rest, ts ≠ ⟨.keyword .end_, line⟩ :: rest)
    (opened : Nat) :
    turn opened ts = item ts >>= fun first => turnBehind opened first.value first.rest := by
  unfold turn
  split
  · exact absurd rfl nonempty
  · exact absurd rfl (goesOn _ _)
  · rfl

/-- A body is read by a turn and the turns behind it. -/
theorem bodyResult_eq_turn (opened : Nat) (ts : List Lexeme) :
    bodyResult opened ts =
      match turn opened ts with
      | .error e => .error e
      | .ok (.closed rest) => .ok ([], rest)
      | .ok (.goesOn read rest) =>
        (bodyResult opened rest).map fun (others, rest) => (read ++ others, rest) := by
  cases ts with
  | nil =>
    rw [bodyResult, body.eq_def]
    rfl
  | cons l ts =>
    by_cases closes : l.token = .keyword .end_
    · obtain ⟨_, line⟩ := l
      cases closes
      exact bodyResult_end opened line ts
    · have more := ne_cons_of_ne closes ts
      have given := List.cons_ne_nil l ts
      rw [bodyResult, body_of_ne given more, turn_of_ne given more]
      cases item (l :: ts) with
      | error e => rfl
      | ok first =>
        simp only [bind, Except.bind, turnBehind_eq]
        cases separated : separator opened first.rest with
        | error e => rfl
        | ok closed =>
          obtain ⟨closed, rest, short⟩ := closed
          cases closed with
          | false =>
            simp only [Except.map, Bool.false_eq_true, if_false, bodyResult]
            cases body opened rest <;> rfl
          | true =>
            -- The next turn takes the `end` and adds no statement.
            obtain ⟨line, ends⟩ := eq_cons_of_separator separated
            simp only [Except.map, if_true]
            rw [ends, if_pos rfl, bodyResult_end]
            simp only [List.append_nil]

/-- As many turns as there are tokens, and one more, read a body to its end. -/
theorem turns_eq (opened : Nat) {n : Nat} (enough : ts.length < n) :
    turns opened n ts = some (bodyResult opened ts) := by
  induction n generalizing ts with
  | zero => cases enough
  | succ n ih =>
    rw [turns, bodyResult_eq_turn]
    cases taken : turn opened ts with
    | error e => rfl
    | ok result =>
      cases result with
      | closed rest => rfl
      | goesOn read rest =>
        have shorter := (properTail_of_turn taken).2
        dsimp only
        rw [ih (by omega)]
        rfl

/-- Every rule comes to an end on every list of tokens. It fails, or it leaves a shorter tail of the
tokens; only a statement and an item may leave all of them, if the first one is `;`, `end` or
`else`, and then they are one empty statement. Every turn of the loop of a body that goes on has
taken a token, and a body is what as many turns as tokens, and one more, come to. -/
theorem rules_progress :
    (∀ opened, Advances (body opened)) ∧ (∀ line, Advances (conditional line)) ∧
    Advances declaration ∧ (∀ line, Advances (target line)) ∧ Advances expression ∧
    (∀ level, Advances (binary level)) ∧ Advances unary ∧ Advances term ∧
    Concludes Progress item ∧ Concludes (fun ts s rest => Progress ts [s] rest) statement ∧
    ∀ opened ts,
      (∀ read rest, turn opened ts = .ok (.goesOn read rest) → ProperTail rest ts) ∧
      turns opened (ts.length + 1) ts = some (bodyResult opened ts) := by
  refine ⟨body_advances, conditional_advances, declaration_advances, target_advances,
    binary_advances .relational, binary_advances, unary_advances, term_advances, ?_, ?_, ?_⟩
  · exact .of_ok fun _ _ => item_progress
  · exact .of_ok fun _ _ => statement_progress
  · intro opened ts
    exact ⟨fun _ _ => properTail_of_turn, turns_eq opened (Nat.lt_succ_self ts.length)⟩

/-- Before `else` an item takes no token; the turn that reads it fails. -/
example : item [⟨.keyword .else_, 3⟩] = .ok (.zero [.empty 3]) ∧
    turn 1 [⟨.keyword .else_, 3⟩] = .error ⟨.expected .separator (.keyword .else_), 3⟩ := by
  constructor <;> with_unfolding_all rfl

end GotoLang.Grammar
