import GotoLang.Proofs.CommentText
import GotoLang.Proofs.TokenLine

set_option autoImplicit false

namespace GotoLang

/-- The token, a number of lines further down. -/
def Lexeme.below (lines : Nat) (l : Lexeme) : Lexeme :=
  { l with line := l.line + lines }

def SourceError.below (lines : Nat) (e : SourceError) : SourceError :=
  { e with line := e.line + lines }

/-- A text that begins further down has its tokens, or its error, further down. -/
theorem tokensFrom_add (line lines : Nat) (text : List Char) :
    tokensFrom (line + lines) text =
      ((tokensFrom line text).map (List.map (Lexeme.below lines))).mapError
        (SourceError.below lines) := by
  cases text with
  | nil =>
    rw [tokensFrom_nil, tokensFrom_nil]
    rfl
  | cons c text =>
    cases found : munch (c :: text) with
    | token t rest =>
      have shorter : rest.length ≤ text.length := munch_rest_length_le (by rw [found]; rfl)
      rw [tokensFrom_of_token found, tokensFrom_of_token found, tokensFrom_add line lines rest]
      cases tokensFrom line rest <;> rfl
    | pass newlines rest =>
      have shorter : rest.length ≤ text.length := munch_rest_length_le (by rw [found]; rfl)
      rw [tokensFrom_of_pass found, tokensFrom_of_pass found, Nat.add_right_comm,
        tokensFrom_add (line + newlines) lines rest]
    | fault f =>
      rw [tokensFrom_of_fault found, tokensFrom_of_fault found]
      rfl
  termination_by text.length

/-- A blank is passed over, or it is a fault. -/
theorem munch_blank {c : Char} (blank : isBlank c = true) (text : List Char) :
    (∃ newlines, munch (c :: text) = .pass newlines text) ∨ ∃ f, munch (c :: text) = .fault f := by
  have noBrace : c ≠ '\x7b' := by
    rintro rfl
    cases blank
  by_cases opens : c ∈ gapOpeners
  · simp only [gapOpeners, List.mem_cons, List.not_mem_nil, or_false, noBrace] at opens
    rcases opens with rfl | rfl | rfl | rfl | rfl <;> exact .inl ⟨_, rfl⟩
  · have noWord : isWordChar c = false := by
      rw [← Bool.not_eq_true]
      intro word
      cases blank.symm.trans (isBlank_of_isWordChar word)
    have noDigit : ¬ c.isDigit = true := fun digit => by
      cases noWord.symm.trans (isWordChar_of_isDigit digit)
    have noLetter : ¬ c.isAlpha = true := fun letter => by
      cases noWord.symm.trans (isWordChar_of_isAlpha letter)
    have noPoint : c ≠ '.' := by
      rintro rfl
      cases blank
    have noSymbol : Symbol.split? (c :: text) = none := by
      rw [Option.eq_none_iff_forall_ne_some]
      rintro ⟨s, rest⟩ found
      have same := Symbol.eq_spelling_append_of_split? found
      cases s <;> (obtain ⟨rfl, _⟩ := List.cons.inj same; cases blank)
    rw [munch_of_not_mem_gapOpeners opens, if_neg noDigit, if_neg noLetter, if_neg noPoint,
      noSymbol]
    exact .inr ⟨_, rfl⟩

theorem tokensFrom_blanks {line : Nat} {text : List Char} {tokens : List Lexeme}
    (blank : text.all isBlank = true) (read : tokensFrom line text = .ok tokens) :
    tokens = [] := by
  induction text generalizing line with
  | nil =>
    rw [tokensFrom_nil] at read
    exact (Except.ok.inj read).symm
  | cons c text ih =>
    rw [List.all_cons, Bool.and_eq_true] at blank
    rcases munch_blank blank.1 text with ⟨newlines, found⟩ | ⟨f, found⟩
    · rw [tokensFrom_of_pass found] at read
      exact ih blank.2 read
    · rw [tokensFrom_of_fault found] at read
      cases read

theorem munch_open_comment {text : List Char} (open_ : '\x7d' ∉ text) :
    munch ('\x7b' :: text) = .fault .unterminatedComment := by
  have run : text.all (· != '\x7d') = true :=
    List.all_eq_true.2 fun c member => bne_iff_ne.2 fun same => open_ (same ▸ member)
  have whole : splitRun (· != '\x7d') text = (text, []) := by
    have split : splitRun (· != '\x7d') (text ++ []) = (text, []) := splitRun_run_append run nofun
    rwa [List.append_nil] at split
  change munchComment text = _
  rw [munchComment, whole]

def lastSolid? (text : List Char) : Option Char :=
  text.reverse.find? (!isBlank ·)

/-- The last thing in the text, apart from blanks, is a label: the text ends in a colon, and its
last token is a label, which the colon is part of. -/
def EndsInLabel (text : List Char) (tokens : List Lexeme) : Prop :=
  lastSolid? text = some ':' ∧ ∃ l ∈ tokens.getLast?, l.token.isLabel = true

/-- After its leading blanks the text starts with the word `integer`, `real` or `vector`, in any
mixture of letter cases. -/
def StartsWithType (text : List Char) : Prop :=
  ∃ blanks word rest, text = blanks ++ (word ++ rest) ∧ blanks.all isBlank = true ∧
    String.ofList (word.map Char.toLower) ∈ ["integer", "real", "vector"] ∧
    ∀ c ∈ rest.head?, isWordChar c = false

theorem EndsInLabel.append {text : List Char} {tokens : List Lexeme}
    (ends : EndsInLabel text tokens) (used : List Char) (others : List Lexeme) :
    EndsInLabel (used ++ text) (others ++ tokens) := by
  obtain ⟨colon, l, last, label⟩ := ends
  refine ⟨?_, l, ?_, label⟩
  · rw [lastSolid?, List.reverse_append, List.find?_append]
    exact Option.or_eq_some_iff.2 (.inl colon)
  · rw [List.getLast?_append]
    exact Option.or_eq_some_iff.2 (.inl last)

theorem startsWithType_of_opensType {text : List Char} (type : opensType text = true) :
    StartsWithType text := by
  refine ⟨text.takeWhile isBlank, (trimStart text).takeWhile isWordChar,
    (trimStart text).dropWhile isWordChar, ?_, List.all_takeWhile, ?_, ?_⟩
  · rw [List.takeWhile_append_dropWhile]
    exact List.takeWhile_append_dropWhile.symm
  · unfold opensType at type
    split at type
    · rename_i k found
      unfold Keyword.ofWord? at found
      have same := List.find?_some found
      simp only [beq_iff_eq] at same
      rw [← same, String.ofList_toList]
      cases k with
      | integer | real | vector => decide
      | _ => cases type
    · cases type
  · intro c first
    have stops := List.head?_dropWhile_not isWordChar (trimStart text)
    rw [Option.mem_def.1 first] at stops
    exact stops

/-- A text that ends in a name with a colon ends in a label. -/
theorem endsInLabel_of_name {line : Nat} {word blanks : List Char} {tokens : List Lexeme}
    (name : IsName word) (blank : blanks.all isBlank = true)
    (read : tokensFrom line (word ++ ':' :: blanks) = .ok tokens) :
    EndsInLabel (word ++ ':' :: blanks) tokens := by
  constructor
  · have skipped : blanks.reverse.find? (!isBlank ·) = none := by
      rw [List.find?_eq_none]
      intro c member
      simp only [List.all_eq_true.1 blank c (List.mem_reverse.1 member), Bool.not_true,
        Bool.false_eq_true, not_false_eq_true]
    rw [lastSolid?, List.reverse_append, List.reverse_cons, List.find?_append, List.find?_append,
      skipped]
    rfl
  · have noAssign : ∀ rest, blanks ≠ '=' :: rest := by
      rintro rest rfl
      cases blank
    have noType : opensType blanks = false := by
      have skipped := opensType_blanks blank []
      rwa [List.append_nil] at skipped
    rw [tokensFrom_name_colon name noAssign, noType, if_neg Bool.false_ne_true] at read
    cases others : tokensFrom line blanks with
    | ok ts =>
      rw [others, tokensFrom_blanks blank others] at read
      cases read
      exact ⟨_, rfl, rfl⟩
    | error e =>
      rw [others] at read
      cases read

/-- The tokens of a text with other lines behind it. -/
theorem tokensFrom_append_newline {line : Nat} {text : List Char} {tokens : List Lexeme}
    (behind : List Char) (read : tokensFrom line text = .ok tokens)
    (apart : EndsInLabel text tokens → opensType behind = false) :
    tokensFrom line (text ++ '\n' :: behind) =
      (tokensFrom (line + (1 + text.count '\n')) behind).map (tokens ++ ·) := by
  cases text with
  | nil =>
    rw [tokensFrom_nil] at read
    obtain rfl := Except.ok.inj read
    have newline : munch ('\n' :: behind) = .pass 1 behind := rfl
    rw [List.nil_append, tokensFrom_of_pass newline, List.count_nil]
    cases tokensFrom (line + 1) behind <;> rfl
  | cons c text =>
    have gap : AtGap ('\n' :: behind) := by
      rintro _ ⟨⟩
      decide
    have closes : c = '\x7b' → '\x7d' ∈ text := by
      rintro rfl
      by_contra open_
      rw [tokensFrom_of_fault (munch_open_comment open_)] at read
      cases read
    have noType : ∀ word blanks, IsName word → c :: text = word ++ ':' :: blanks →
        blanks.all isBlank = true → opensType ('\n' :: behind) = false := by
      intro word blanks name whole blank
      rw [← List.singleton_append, opensType_blanks rfl]
      rw [whole] at read apart
      exact apart (endsInLabel_of_name name blank read)
    have step := gap.munch_append c text closes noType
    have counts := munch_counts (c :: text)
    cases found : munch (c :: text) with
    | token t rest =>
      have shorter : rest.length ≤ text.length := munch_rest_length_le (by rw [found]; rfl)
      rw [found] at step counts
      rw [tokensFrom_of_token found] at read
      cases others : tokensFrom line rest with
      | ok ts =>
        rw [others] at read
        obtain rfl := Except.ok.inj read
        obtain ⟨used, whole⟩ := counts.suffix
        have later := tokensFrom_append_newline behind others fun ends =>
          apart (whole ▸ ends.append used [⟨t, line⟩])
        rw [List.cons_append, tokensFrom_of_token step, later, ← counts.count, Nat.zero_add]
        cases tokensFrom (line + (1 + rest.count '\n')) behind <;> rfl
      | error e =>
        rw [others] at read
        cases read
    | pass newlines rest =>
      have shorter : rest.length ≤ text.length := munch_rest_length_le (by rw [found]; rfl)
      rw [found] at step counts
      rw [tokensFrom_of_pass found] at read
      obtain ⟨used, whole⟩ := counts.suffix
      have later := tokensFrom_append_newline behind read fun ends =>
        apart (whole ▸ ends.append used [])
      have lines : line + newlines + (1 + rest.count '\n') =
          line + (1 + (c :: text).count '\n') := by
        rw [← counts.count]
        omega
      rw [List.cons_append, tokensFrom_of_pass step, later, lines]
    | fault f =>
      rw [tokensFrom_of_fault found] at read
      cases read
  termination_by text.length
  decreasing_by all_goals subst_vars; rw [List.length_cons]; omega

/-- A text of tokens with a line break and another text behind it has the tokens of both, or the
error of the other, which are as many lines further down as the first text has. Only a label at the
end of the first text may not meet a type at the start of the other. -/
theorem tokenize_append_line (one other : String) (tokens : List Lexeme)
    (read : tokenize one = .ok tokens)
    (apart : ¬ (EndsInLabel one.toList tokens ∧ StartsWithType other.toList)) :
    (∀ others, tokenize other = .ok others →
      tokenize (one ++ "\n" ++ other) =
        .ok (tokens ++ others.map (Lexeme.below (1 + one.toList.count '\n')))) ∧
    ∀ e, tokenize other = .error e →
      tokenize (one ++ "\n" ++ other) = .error (e.below (1 + one.toList.count '\n')) := by
  have noType : EndsInLabel one.toList tokens → opensType other.toList = false := by
    intro ends
    rw [← Bool.not_eq_true]
    exact fun type => apart ⟨ends, startsWithType_of_opensType type⟩
  have text : (one ++ "\n" ++ other).toList = one.toList ++ '\n' :: other.toList := by
    rw [String.toList_append, String.toList_append, List.append_assoc]
    rfl
  have joined := tokensFrom_append_newline other.toList read noType
  rw [tokensFrom_add, ← text] at joined
  constructor
  all_goals
    intro result found
    rw [tokenize] at found ⊢
    rw [joined, found]
    rfl

/-- A comment between a label and a type keeps them apart over the line break. -/
theorem tokenize_append_line_behind_comment :
    ∃ tokens others, tokenize "n: real;\ntop: \x7bhere\x7d" = .ok tokens ∧
      tokenize " integer\n." = .ok others ∧
      ¬ (EndsInLabel "n: real;\ntop: \x7bhere\x7d".toList tokens ∧
        StartsWithType " integer\n.".toList) ∧
      tokenize ("n: real;\ntop: \x7bhere\x7d" ++ "\n" ++ " integer\n.") =
        .ok (tokens ++ [⟨.keyword .integer, 3⟩]) := by
  have first : tokenize "n: real;\ntop: \x7bhere\x7d" =
      .ok [⟨.identifier "n", 1⟩, ⟨.symbol .colon, 1⟩, ⟨.keyword .real, 1⟩, ⟨.symbol .semicolon, 1⟩,
        ⟨.label "top", 2⟩] := by
    with_unfolding_all rfl
  have second : tokenize " integer\n." = .ok [⟨.keyword .integer, 1⟩] := by
    with_unfolding_all rfl
  have apart : ∀ tokens, ¬ (EndsInLabel "n: real;\ntop: \x7bhere\x7d".toList tokens ∧
      StartsWithType " integer\n.".toList) :=
    fun tokens both => absurd both.1.1 (by decide)
  exact ⟨_, _, first, second, apart _,
    (tokenize_append_line _ _ _ first (apart _)).1 _ second⟩

/-- Behind a break, a type makes a declared name of what would be a label. -/
example : tokenize "top:\n integer" =
    .ok [⟨.identifier "top", 1⟩, ⟨.symbol .colon, 1⟩, ⟨.keyword .integer, 2⟩] := by
  with_unfolding_all rfl

end GotoLang
