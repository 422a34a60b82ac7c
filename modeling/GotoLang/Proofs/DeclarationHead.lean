import GotoLang.Proofs.PhraseReading
import GotoLang.Proofs.RuleVerdict
import Mathlib.Data.List.Basic

set_option autoImplicit false

namespace GotoLang

theorem Keyword.eq_of_opensType {k : Keyword} (opens : k.opensType = true) :
    (∃ type : ElementType, k = type.keyword) ∨ k = .vector := by
  cases k with
  | integer => exact .inl ⟨.integer, rfl⟩
  | real => exact .inl ⟨.real, rfl⟩
  | vector => exact .inr rfl
  | _ => cases opens

namespace Grammar

/-- The tokens are names with commas between them, and a colon. -/
def IsHead (head : List Lexeme) (names : List String) : Prop :=
  ∃ listed colon, head = listed ++ [⟨.symbol .colon, colon⟩] ∧ ListPhrase NamePhrase listed names []

section

variable {α : Type} {bound : List Lexeme → Nat}

def Accepts (rule : (ts : List Lexeme) → Parse α (bound ts)) (ts : List Lexeme) : Prop :=
  ∃ r, rule ts = .ok r

/-- The rule fails at this token behind the front. It finds no fault in the front, since it accepts
some tokens that start with it, and it reports this token whatever follows. -/
structure FailsAt (rule : (ts : List Lexeme) → Parse α (bound ts)) (front : List Lexeme)
    (l : Lexeme) (e : SourceError) : Prop where
  goesOn : ∃ more, Accepts rule (front ++ more)
  blames : Blames e l
  always : ∀ after, rule (front ++ l :: after) = .error e

/-- The rule fails at the end of the tokens. It finds no fault in them, and calls for more. -/
structure FailsAtEnd (rule : (ts : List Lexeme) → Parse α (bound ts)) (ts : List Lexeme)
    (e : SourceError) : Prop where
  goesOn : ∃ more, Accepts rule (ts ++ more)
  runsOut : e.fault = .endOfInput
  failed : rule ts = .error e

variable {rule : (ts : List Lexeme) → Parse α (bound ts)}

theorem Parse.Gives.accepts {ts after : List Lexeme} {a : α} (gives : (rule ts).Gives a after) :
    Accepts rule ts := by
  obtain ⟨_, accepted⟩ := gives
  exact ⟨_, accepted⟩

/-- The rule accepts no tokens that go on behind the front with a token at which it fails. -/
theorem FailsAt.not_accepts {front after : List Lexeme} {l : Lexeme} {e : SourceError}
    (fails : FailsAt rule front l e) : ¬ Accepts rule (front ++ l :: after) := by
  rintro ⟨r, accepted⟩
  rw [fails.always] at accepted
  cases accepted

end

section

variable {l : Lexeme} {head : List Lexeme} {names : List String}

theorem IsHead.phrase (isHead : IsHead head names) (rest : List Lexeme) :
    ∃ colon, ListPhrase NamePhrase (head ++ rest) names (⟨.symbol .colon, colon⟩ :: rest) := by
  obtain ⟨listed, colon, rfl, all⟩ := isHead
  have takes := all.takesFront fun _ _ _ => NamePhrase.takesFront
  refine ⟨colon, ?_⟩
  rw [List.append_assoc]
  exact takes.whole _

theorem StartsDeclaration.exists_head {ts : List Lexeme} (starts : StartsDeclaration ts) :
    ∃ l head names k word rest, ts = l :: head ++ ⟨.keyword k, word⟩ :: rest ∧
      IsHead (l :: head) names ∧ k.opensType = true := by
  obtain ⟨names, colon, k, word, rest, opens, listed⟩ := starts
  obtain ⟨front, rfl, _, again⟩ := listed.takesFront fun _ _ _ => NamePhrase.takesFront
  have all : ListPhrase NamePhrase front names [] := List.append_nil front ▸ again []
  cases front with
  | nil =>
    cases all with
    | one only =>
      obtain ⟨_, none⟩ := only
      cases none
    | more first =>
      obtain ⟨_, none⟩ := first
      cases none
  | cons l front =>
    refine ⟨l, front ++ [⟨.symbol .colon, colon⟩], names, k, word, rest, ?_, ?_, opens⟩
    · simp only [List.cons_append, List.append_assoc, List.nil_append]
    · exact ⟨l :: front, colon, rfl, all⟩

/-- Behind its head, a declaration has a size and the type of the elements. -/
theorem IsHead.declaration_gives (isHead : IsHead (l :: head) names) {tail after : List Lexeme}
    {size : Option Expr} {type : ElementType} {last : Nat}
    (sized : SizePhrase tail size (⟨.keyword type.keyword, last⟩ :: after)) :
    (declaration (l :: head ++ tail)).Gives (.declare names size type l.line) after := by
  obtain ⟨colon, listed⟩ := isHead.phrase tail
  exact (DeclarationPhrase.mk listed sized).gives

/-- What is read behind the head of a declaration, where this reader gives the size. -/
def behindHead (names : List String) (line : Nat) (size : Reader (Option Expr)) :
    Reader Statement :=
  size >>= fun size => reading (elementType line) >>= fun type =>
    pure (.declare names size type line)

theorem IsHead.reading_declaration (isHead : IsHead (l :: head) names) (tail : List Lexeme) :
    reading declaration (l :: head ++ tail) =
      behindHead names l.line (reading (vectorSize l.line)) tail := by
  obtain ⟨colon, listed⟩ := isHead.phrase tail
  have read : reading (commaList (declaredName l.line)) (l :: head ++ tail) =
      .ok (names, ⟨.symbol .colon, colon⟩ :: tail) :=
    (listed.gives (fun name _ => name.gives) (.of_binaryOperator?_eq_none nofun rfl)
      nofun).unbounded
  have passed : reading (expect (.symbol .colon) .colonAfterNames l.line)
      (⟨.symbol .colon, colon⟩ :: tail) = .ok ((), tail) := (expect_gives ..).unbounded
  have whole : reading declaration (l :: head ++ tail) =
      (reading (commaList (declaredName l.line)) >>= fun names =>
        reading (expect (.symbol .colon) .colonAfterNames l.line) >>= fun _ =>
          behindHead names l.line (reading (vectorSize l.line))) (l :: head ++ tail) :=
    Parse.unbounded_bind rfl fun _ _ _ => Parse.unbounded_bind rfl fun _ _ _ =>
      Parse.unbounded_bind rfl fun _ _ _ => Parse.unbounded_bind rfl fun _ _ _ => rfl
  rw [whole, bind_of_ok read, bind_of_ok passed]

def bracketedSize (line : Nat) : Reader (Option Expr) :=
  reading (expect (.symbol .leftBracket) .bracketAfterVector line) >>= fun _ =>
    reading expression >>= fun size =>
      reading (expect (.symbol .rightBracket) .bracketAfterSize line) >>= fun _ =>
        reading (expect (.keyword .of) .ofAfterSize line) >>= fun _ => pure (some size)

theorem reading_vectorSize (word line : Nat) (tail : List Lexeme) :
    reading (vectorSize line) (⟨.keyword .vector, word⟩ :: tail) = bracketedSize line tail :=
  Parse.unbounded_bind rfl fun _ _ _ => Parse.unbounded_bind rfl fun _ _ _ =>
    Parse.unbounded_bind rfl fun _ _ _ => Parse.unbounded_bind rfl fun _ _ _ => rfl

theorem IsHead.reading_vector (isHead : IsHead (l :: head) names) (word : Nat)
    (tail : List Lexeme) :
    reading declaration (l :: head ++ ⟨.keyword .vector, word⟩ :: tail) =
      behindHead names l.line (bracketedSize l.line) tail := by
  rw [isHead.reading_declaration]
  show reading (vectorSize l.line) _ >>= _ = _
  rw [reading_vectorSize]
  rfl

def IsType (ts : List Lexeme) (type : ElementType) : Prop :=
  ∃ last, ts = [⟨.keyword type.keyword, last⟩]

theorem elementType_verdict (line : Nat) (ts : List Lexeme) :
    Verdict (reading (elementType line)) IsType ts := by
  have starts : Begins IsType [] := ⟨[⟨.keyword .integer, line⟩], .integer, line, rfl⟩
  cases ts with
  | nil => exact .ended starts rfl
  | cons l rest =>
    obtain ⟨token, here⟩ := l
    cases token with
    | keyword k =>
      cases k with
      | integer =>
        have taken : IsType [⟨.keyword .integer, here⟩] .integer := ⟨here, rfl⟩
        exact .cons (.pure taken) fun _ => rfl
      | real =>
        have taken : IsType [⟨.keyword .real, here⟩] .real := ⟨here, rfl⟩
        exact .cons (.pure taken) fun _ => rfl
      | _ => exact .refuses .elementType starts fun _ => rfl
    | integer | real | identifier | label | symbol =>
      exact .refuses .elementType starts fun _ => rfl

theorem bracketedSize_verdict (word line : Nat) (ts : List Lexeme) :
    Verdict (bracketedSize line)
      (fun tail size => ∃ e, size = some e ∧ SizePhrase (⟨.keyword .vector, word⟩ :: tail) size [])
      ts := by
  refine (expect_verdict ..).bind fun _ _ rest opening _ => ?_
  obtain ⟨opened, rfl⟩ := opening
  refine (binary_verdict .relational rest).bind fun inner size rest phrase _ => ?_
  refine (expect_verdict ..).bind fun _ _ rest closing _ => ?_
  obtain ⟨closed, rfl⟩ := closing
  refine (expect_verdict ..).bind fun _ _ rest joining _ => .pure ?_
  obtain ⟨joined, rfl⟩ := joining
  exact ⟨size, rfl, .vector (phrase.behind _)⟩

/-- Behind `vector`, the tokens are all that a declaration of the names still needs. -/
def CompletesVector (names : List String) (word line : Nat) (tail : List Lexeme) (s : Statement) :
    Prop :=
  ∃ size type last, s = .declare names (some size) type line ∧
    SizePhrase (⟨.keyword .vector, word⟩ :: tail) (some size) [⟨.keyword type.keyword, last⟩]

theorem behindHead_verdict (names : List String) (word line : Nat) (ts : List Lexeme) :
    Verdict (behindHead names line (bracketedSize line)) (CompletesVector names word line) ts := by
  refine (bracketedSize_verdict word line ts).bind fun front size rest sized _ => ?_
  obtain ⟨e, rfl, sized⟩ := sized
  refine (elementType_verdict line rest).bind fun _ type _ typed _ => .pure ?_
  obtain ⟨last, rfl⟩ := typed
  exact ⟨e, type, last, rfl, sized.takesFront.whole _⟩

/-- What begins a size and a type behind `vector` can be completed to a declaration. -/
theorem IsHead.goesOn (isHead : IsHead (l :: head) names) {word : Nat} {tail : List Lexeme}
    (begins : Begins (CompletesVector names word l.line) tail) :
    ∃ more, Accepts declaration (l :: head ++ ⟨.keyword .vector, word⟩ :: tail ++ more) := by
  obtain ⟨more, _, size, type, last, rfl, sized⟩ := begins
  refine ⟨more, ?_⟩
  rw [List.append_assoc]
  exact (isHead.declaration_gives sized).accepts

/-- A head can always be completed. -/
theorem IsHead.completes (isHead : IsHead (l :: head) names) {k : Keyword}
    (opens : k.opensType = true) (word : Nat) :
    ∃ more, Accepts declaration (l :: head ++ ⟨.keyword k, word⟩ :: more) := by
  obtain ⟨type, rfl⟩ | rfl := Keyword.eq_of_opensType opens
  · exact ⟨[], (isHead.declaration_gives .scalar).accepts⟩
  · obtain ⟨more, accepted⟩ := isHead.goesOn (behindHead_verdict names word l.line []).begins_nil
    rw [List.append_assoc] at accepted
    exact ⟨more, accepted⟩

/-- The rule for declarations does not fail in the head, and not at the name of the type. -/
theorem IsHead.length_lt_of_failsAt (isHead : IsHead (l :: head) names) {k : Keyword}
    (opens : k.opensType = true) {word : Nat} {rest front after : List Lexeme} {m : Lexeme}
    {e : SourceError} (split : l :: head ++ ⟨.keyword k, word⟩ :: rest = front ++ m :: after)
    (fails : FailsAt declaration front m e) : (l :: head).length < front.length := by
  refine Nat.lt_of_not_ge fun within => ?_
  obtain ⟨more, accepted⟩ := isHead.completes opens word
  have short : (front ++ [m]).length ≤ (l :: head ++ [(⟨.keyword k, word⟩ : Lexeme)]).length := by
    simp only [List.length_append, List.length_singleton]
    omega
  have early : front ++ [m] <+: l :: head ++ ⟨.keyword k, word⟩ :: rest :=
    ⟨after, (List.append_cons ..).symm.trans split.symm⟩
  obtain ⟨inside, same⟩ : front ++ [m] <+: l :: head ++ [⟨.keyword k, word⟩] :=
    List.prefix_of_prefix_length_le early ⟨rest, (List.append_cons ..).symm⟩ short
  have whole : l :: head ++ ⟨.keyword k, word⟩ :: more = front ++ m :: (inside ++ more) := by
    rw [List.append_cons, ← same, List.append_assoc, List.append_assoc]
    rfl
  rw [whole] at accepted
  exact fails.not_accepts accepted

/-- Behind `vector` the rule reads a size and the type of the elements, or it fails there. -/
theorem IsHead.vector_cases (isHead : IsHead (l :: head) names) (word : Nat) (rest : List Lexeme) :
    (∃ size type after, (declaration (l :: head ++ ⟨.keyword .vector, word⟩ :: rest)).Gives
        (.declare names (some size) type l.line) after) ∨
      (∃ inside m after e, rest = inside ++ m :: after ∧
        FailsAt declaration (l :: head ++ ⟨.keyword .vector, word⟩ :: inside) m e) ∨
      ∃ e, FailsAtEnd declaration (l :: head ++ ⟨.keyword .vector, word⟩ :: rest) e := by
  have same := isHead.reading_vector word
  cases behindHead_verdict names word l.line rest with
  | @takes inside after _ split phrase again =>
    obtain ⟨size, type, _, rfl, _⟩ := phrase
    refine .inl ⟨size, type, after, Parse.gives_of_unbounded ?_⟩
    rw [split]
    exact (same _).trans (again after rfl)
  | stuck split begins blames again =>
    refine .inr (.inl ⟨_, _, _, _, split, isHead.goesOn begins, blames, fun after => ?_⟩)
    rw [List.append_assoc]
    exact Parse.eq_error_of_unbounded ((same _).trans (again after))
  | ended begins failed =>
    have short := Parse.eq_error_of_unbounded ((same rest).trans failed)
    exact .inr (.inr ⟨_, isHead.goesOn begins, rfl, short⟩)

end

/-- A declaration is seen ahead wherever the rule for declarations accepts the tokens. Where one is
seen, the tokens are names with commas between them, a colon and a word that opens a type. With
`integer` or `real` the rule accepts them, takes these names and leaves what is behind the word.
With `vector` it takes these names, too, or it fails at a token behind the word, or at the end. It
never fails at a name, a comma or the colon. -/
theorem declaration_lookahead_agrees (ts : List Lexeme) :
    (∀ r, declaration ts = .ok r → startsDeclaration ts = true) ∧
      (startsDeclaration ts = true → ∃ l head names k word rest,
        ts = l :: head ++ ⟨.keyword k, word⟩ :: rest ∧ IsHead (l :: head) names ∧
        ((∃ type : ElementType, k = type.keyword ∧
            (declaration ts).Gives (.declare names none type l.line) rest) ∨
          k = .vector ∧
            ((∃ size type after,
                (declaration ts).Gives (.declare names (some size) type l.line) after) ∨
              (∃ inside m after e, rest = inside ++ m :: after ∧
                FailsAt declaration (l :: head ++ ⟨.keyword k, word⟩ :: inside) m e) ∨
              ∃ e, FailsAtEnd declaration ts e)) ∧
        ∀ front m after e, ts = front ++ m :: after → FailsAt declaration front m e →
          (l :: head).length < front.length) := by
  constructor
  · intro r accepted
    exact (declarationPhrase_of_declaration accepted).startsDeclaration
  · intro starts
    obtain ⟨l, head, names, k, word, rest, rfl, isHead, opens⟩ :=
      (startsDeclaration_iff.1 starts).exists_head
    refine ⟨l, head, names, k, word, rest, rfl, isHead, ?_, ?_⟩
    · obtain ⟨type, rfl⟩ | rfl := Keyword.eq_of_opensType opens
      · exact .inl ⟨type, rfl, isHead.declaration_gives .scalar⟩
      · exact .inr ⟨rfl, isHead.vector_cases word rest⟩
    · intro front m after e split fails
      exact isHead.length_lt_of_failsAt opens split fails

/-- The size of two vectors has no closing bracket, which shows at the type of the elements. -/
theorem declaration_lookahead_agrees_at_open_size :
    ∃ tokens front : List Lexeme,
      front = [⟨.identifier "a", 1⟩, ⟨.symbol .comma, 1⟩, ⟨.identifier "b", 1⟩,
        ⟨.symbol .colon, 1⟩, ⟨.keyword .vector, 1⟩, ⟨.symbol .leftBracket, 2⟩, ⟨.integer 3, 2⟩] ∧
      tokens = front ++ [⟨.keyword .real, 3⟩] ∧ startsDeclaration tokens = true ∧
      FailsAt declaration front ⟨.keyword .real, 3⟩
        ⟨.expected .bracketAfterSize (.keyword .real), 3⟩ := by
  let front : List Lexeme := [⟨.identifier "a", 1⟩, ⟨.symbol .comma, 1⟩, ⟨.identifier "b", 1⟩,
    ⟨.symbol .colon, 1⟩, ⟨.keyword .vector, 1⟩, ⟨.symbol .leftBracket, 2⟩, ⟨.integer 3, 2⟩]
  have starts : startsDeclaration (front ++ [⟨.keyword .real, 3⟩]) = true := rfl
  have failed : declaration (front ++ [⟨.keyword .real, 3⟩]) =
      .error ⟨.expected .bracketAfterSize (.keyword .real), 3⟩ := by
    with_unfolding_all rfl
  obtain ⟨l, head, names, k, word, rest, split, _, outcome, _⟩ :=
    (declaration_lookahead_agrees (front ++ [⟨.keyword .real, 3⟩])).2 starts
  obtain ⟨_, _, _, accepted⟩ | ⟨_, ⟨_, _, _, _, accepted⟩ | ⟨inside, m, after, e, rfl, fails⟩ |
    ⟨e, ends⟩⟩ := outcome
  · rw [failed] at accepted
    cases accepted
  · rw [failed] at accepted
    cases accepted
  · have place := split.trans (List.append_assoc (l :: head) (⟨.keyword k, word⟩ :: inside) _).symm
    generalize l :: head ++ ⟨.keyword k, word⟩ :: inside = before at fails place
    have reported := fails.always after
    rw [← place, failed] at reported
    obtain ⟨_, rfl⟩ := fails.blames
    obtain ⟨token, line⟩ := m
    cases reported
    obtain ⟨rfl, _⟩ := (List.append_cons_inj_of_notMem (by decide) List.not_mem_nil).1 place
    exact ⟨_, front, rfl, rfl, starts, fails⟩
  · have same := ends.failed
    rw [failed] at same
    cases same
    cases ends.runsOut

end Grammar

end GotoLang
