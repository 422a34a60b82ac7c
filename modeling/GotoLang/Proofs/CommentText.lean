import GotoLang.Proofs.SpelledText

set_option autoImplicit false

namespace GotoLang

/-- What was found with a text behind the one that it was found in. -/
def Munch.before (behind : List Char) : Munch → Munch
  | token t rest => token t (rest ++ behind)
  | pass newlines rest => pass newlines (rest ++ behind)
  | fault f => fault f

theorem splitSign_of_ne {text : List Char} (noMinus : ∀ rest, text ≠ '-' :: rest)
    (noPlus : ∀ rest, text ≠ '+' :: rest) : splitSign text = (false, text) := by
  unfold splitSign
  split
  · exact absurd rfl (noMinus _)
  · exact absurd rfl (noPlus _)
  · rfl

theorem realTail?_of_ne {text : List Char} (noPoint : ∀ rest, text ≠ '.' :: rest)
    (whole : List Char) :
    realTail? whole text = (exponent? text).map fun (e, rest) => (.ofParts whole [] e, rest) := by
  unfold realTail?
  split
  · exact absurd rfl (noPoint _)
  · rfl

namespace AtGap

variable {behind : List Char} (gap : AtGap behind)

include gap

/-- A run that ends before a gap is the run of the text alone. -/
theorem splitRun_append (inClass : Char → Bool) (stops : gapOpeners.any inClass = false)
    (text : List Char) :
    splitRun inClass (text ++ behind) =
      ((splitRun inClass text).1, (splitRun inClass text).2 ++ behind) := by
  induction text with
  | nil => exact splitRun_run_append rfl (gap.outside stops)
  | cons c text ih =>
    have others := Prod.mk.inj ih
    cases inside : inClass c with
    | true =>
      simp only [splitRun, List.cons_append, List.takeWhile_cons, List.dropWhile_cons, inside,
        if_true, others.1, others.2]
    | false =>
      simp only [splitRun, List.cons_append, List.takeWhile_cons, List.dropWhile_cons, inside,
        Bool.false_eq_true, if_false]

theorem splitSign_append (text : List Char) :
    splitSign (text ++ behind) = ((splitSign text).1, (splitSign text).2 ++ behind) := by
  have noMinus : ∀ rest, behind ≠ '-' :: rest := fun rest => gap.ne_cons (by decide)
  have noPlus : ∀ rest, behind ≠ '+' :: rest := fun rest => gap.ne_cons (by decide)
  cases text with
  | nil => exact splitSign_of_ne noMinus noPlus
  | cons c text =>
    by_cases minus : c = '-'
    · rw [minus]
      rfl
    · by_cases plus : c = '+'
      · rw [plus]
        rfl
      · have unsigned : ∀ rest, splitSign (c :: rest) = (false, c :: rest) := fun rest =>
          splitSign_of_ne (fun _ same => minus (List.cons.inj same).1)
            (fun _ same => plus (List.cons.inj same).1)
        rw [List.cons_append, unsigned, unsigned]
        rfl

theorem exponent?_append (text : List Char) :
    exponent? (text ++ behind) = (exponent? text).map fun (e, rest) => (e, rest ++ behind) := by
  cases text with
  | nil => exact gap.exponent?_eq_none
  | cons mark text =>
    rw [List.cons_append, exponent?, exponent?]
    by_cases marks : mark = 'e' ∨ mark = 'E'
    · simp only [if_pos marks, gap.splitSign_append,
        gap.splitRun_append Char.isDigit (by decide)]
      by_cases nothing : (splitRun Char.isDigit (splitSign text).2).1 = []
      · simp only [if_pos nothing, Option.map_none]
      · simp only [if_neg nothing, Option.map_some]
    · simp only [if_neg marks, Option.map_none]

theorem radixDigits?_append (text : List Char) :
    radixDigits? (text ++ behind) =
      (radixDigits? text).map fun (mark, base, digits, rest) =>
        (mark, base, digits, rest ++ behind) := by
  cases text with
  | nil => exact gap.radixDigits?_eq_none
  | cons mark text =>
    simp only [List.cons_append, radixDigits?,
      gap.splitRun_append isHexDigit (by decide), gap.splitRun_append isBinaryDigit (by decide)]
    split
    · split <;> rfl
    · split
      · split <;> rfl
      · rfl

theorem realTail?_append (whole text : List Char) :
    realTail? whole (text ++ behind) =
      (realTail? whole text).map fun (d, rest) => (d, rest ++ behind) := by
  by_cases point : ∃ after, text = '.' :: after
  · obtain ⟨after, rfl⟩ := point
    have exponents := gap.exponent?_append (splitRun Char.isDigit after).2
    have alone := gap.exponent?_append ('.' :: after)
    rw [List.cons_append] at alone ⊢
    simp only [realTail?, alone, gap.splitRun_append Char.isDigit (by decide), exponents]
    by_cases nothing : (splitRun Char.isDigit after).1 = []
    · simp only [if_pos nothing, Option.map_map]
      rfl
    · simp only [if_neg nothing]
      cases exponent? (splitRun Char.isDigit after).2 <;> rfl
  · have noPoint : ∀ rest, text ≠ '.' :: rest := fun rest same => point ⟨rest, same⟩
    have noPoint' : ∀ rest, text ++ behind ≠ '.' :: rest := by
      intro rest same
      cases text with
      | nil => exact gap.ne_cons (by decide) same
      | cons c text => exact noPoint text (by rw [(List.cons.inj same).1])
    rw [realTail?_of_ne noPoint', realTail?_of_ne noPoint, gap.exponent?_append, Option.map_map,
      Option.map_map]
    rfl

theorem munchNumber_append (text : List Char) :
    munchNumber (text ++ behind) = (munchNumber text).before behind := by
  simp only [munchNumber, gap.splitRun_append Char.isDigit (by decide), gap.radixDigits?_append,
    gap.realTail?_append]
  generalize splitRun Char.isDigit text = run
  obtain ⟨digits, rest⟩ := run
  by_cases zero : digits = ['0']
  · simp only [if_pos zero]
    cases radixDigits? rest with
    | none => cases realTail? digits rest <;> rfl
    | some found =>
      obtain ⟨mark, base, inBase, rest⟩ := found
      simp only [Option.map_some]
      cases Token.ofNat? (ofDigits base inBase) <;> rfl
  · simp only [if_neg zero]
    cases realTail? digits rest <;> rfl

end AtGap

/-- A text opens a type, or does not, in front of a gap as at the end of the text. Only if it is
blank it depends on the gap. -/
theorem AtGap.opensType_append {behind : List Char} (gap : AtGap behind) (text : List Char)
    (noType : text.all isBlank = true → opensType behind = false) :
    opensType (text ++ behind) = opensType text := by
  induction text with
  | nil => exact noType rfl
  | cons c text ih =>
    cases blank : isBlank c with
    | true =>
      have skipped : ∀ rest, opensType (c :: rest) = opensType rest := by
        intro rest
        rw [opensType, opensType, trimStart, List.dropWhile_cons_of_pos blank]
        rfl
      rw [List.cons_append, skipped, skipped]
      refine ih fun blanks => noType ?_
      rw [List.all_cons, blank, blanks]
      rfl
    | false =>
      have run := gap.splitRun_append isWordChar (by decide) (c :: text)
      have word := congrArg Prod.fst run
      simp only [splitRun] at word
      rw [List.cons_append] at word ⊢
      rw [opensType, opensType, trimStart_cons blank, trimStart_cons blank, word]

theorem makesLabel_of_ne {c : Char} (noColon : c ≠ ':') (text : List Char) :
    makesLabel (c :: text) = false := by
  unfold makesLabel
  split
  · rename_i same
    exact absurd (List.cons.inj same).1 noColon
  · rename_i same
    exact absurd (List.cons.inj same).1 noColon
  · rfl

/-- What makes a name a label in front of a gap does so at the end of the text. -/
theorem AtGap.makesLabel_append {behind : List Char} (gap : AtGap behind) (text : List Char)
    (noType : ∀ blanks, text = ':' :: blanks → blanks.all isBlank = true →
      opensType behind = false) :
    makesLabel (text ++ behind) = makesLabel text := by
  cases text with
  | nil => exact gap.makesLabel_eq_false
  | cons c text =>
    by_cases colon : c = ':'
    · subst colon
      by_cases assign : ∃ rest, text = '=' :: rest
      · obtain ⟨rest, rfl⟩ := assign
        rfl
      · have noAssign : ∀ rest, text ≠ '=' :: rest := fun rest same => assign ⟨rest, same⟩
        have noAssign' : ∀ rest, text ++ behind ≠ '=' :: rest := by
          intro rest same
          cases text with
          | nil => exact gap.ne_cons (by decide) same
          | cons c text => exact noAssign text (by rw [(List.cons.inj same).1])
        rw [List.cons_append, makesLabel_colon noAssign', makesLabel_colon noAssign,
          gap.opensType_append text (noType text rfl)]
    · rw [List.cons_append, makesLabel_of_ne colon, makesLabel_of_ne colon]

/-- The word at the front of a text that begins with a letter. -/
theorem isWord_splitRun {c : Char} (letter : c.isAlpha = true) (text : List Char) :
    IsWord (splitRun isWordChar (c :: text)).1 where
  letter := by
    refine ⟨c, text.takeWhile isWordChar, ?_, letter⟩
    exact List.takeWhile_cons_of_pos (isWordChar_of_isAlpha letter)
  inside := List.all_takeWhile

/-- A word is found in front of a gap as at the end of the text, unless it is a name with a colon
and the gap opens a type. -/
theorem AtGap.munchWord_append {behind : List Char} (gap : AtGap behind) {c : Char}
    (letter : c.isAlpha = true) (text : List Char)
    (noType : ∀ word blanks, IsName word → c :: text = word ++ ':' :: blanks →
      blanks.all isBlank = true → opensType behind = false) :
    munchWord (c :: (text ++ behind)) = (munchWord (c :: text)).before behind := by
  have run := gap.splitRun_append isWordChar (by decide) (c :: text)
  have whole := GotoLang.splitRun_append isWordChar (c :: text)
  have is := isWord_splitRun letter text
  rw [List.cons_append] at run
  rw [munchWord, munchWord, run]
  generalize splitRun isWordChar (c :: text) = found at whole is
  obtain ⟨word, rest⟩ := found
  cases keyword : Keyword.ofWord? word with
  | some k => simp only [keyword, Munch.before]
  | none =>
    have name : IsName word := ⟨is, Keyword.ofWord?_eq_none_iff.1 keyword⟩
    have same : makesLabel (rest ++ behind) = makesLabel rest :=
      gap.makesLabel_append rest fun blanks colon => noType word blanks name (colon ▸ whole.symm)
    simp only [keyword, same]
    cases makes : makesLabel rest with
    | true =>
      cases rest with
      | nil => cases makes
      | cons colon rest => rfl
    | false => rfl

theorem Symbol.split?_ne_none {c : Char} (first : c ∈ [':', '<', '>']) (text : List Char) :
    Symbol.split? (c :: text) ≠ none := by
  intro nothing
  unfold Symbol.split? at nothing
  split at nothing
  case h_19 =>
    simp only [List.mem_cons, List.not_mem_nil, or_false] at first
    rcases first with rfl | rfl | rfl
    · exact ‹∀ rest, ':' :: text = ':' :: rest → False› text rfl
    · exact ‹∀ rest, '<' :: text = '<' :: rest → False› text rfl
    · exact ‹∀ rest, '>' :: text = '>' :: rest → False› text rfl
  all_goals cases nothing

/-- Only three characters make a symbol with the next one. -/
theorem Symbol.split?_cons {c : Char} {text : List Char}
    (single : c ∈ [':', '<', '>'] → ∀ d ∈ text.head?, d ∉ ['=', '>']) :
    Symbol.split? (c :: text) = (Symbol.split? [c]).map fun (s, _) => (s, text) := by
  cases whole : Symbol.split? (c :: text) with
  | some found =>
    obtain ⟨s, rest⟩ := found
    have same := Symbol.eq_spelling_append_of_split? whole
    cases s with
    | assign | notEqual | lessEqual | greaterEqual =>
      obtain ⟨rfl, rfl⟩ := List.cons.inj same
      exact absurd (by decide) (single (by decide) _ rfl)
    | _ =>
      obtain ⟨rfl, rfl⟩ := List.cons.inj same
      rfl
  | none =>
    cases alone : Symbol.split? [c] with
    | none => rfl
    | some found =>
      obtain ⟨s, rest⟩ := found
      have same := Symbol.eq_spelling_append_of_split? alone
      cases s with
      | assign | notEqual | lessEqual | greaterEqual => cases same
      | colon | less | greater =>
        obtain ⟨rfl, _⟩ := List.cons.inj same
        exact absurd whole (Symbol.split?_ne_none (by decide) text)
      | _ =>
        obtain ⟨rfl, _⟩ := List.cons.inj same
        cases whole

theorem Symbol.split?_cons_cons (c d : Char) (rest : List Char) :
    Symbol.split? (c :: d :: rest) =
      (Symbol.split? [c, d]).map fun (s, after) => (s, after ++ rest) := by
  by_cases double : c ∈ [':', '<', '>'] ∧ d ∈ ['=', '>']
  · obtain ⟨first, second⟩ := double
    simp only [List.mem_cons, List.not_mem_nil, or_false] at first second
    rcases first with rfl | rfl | rfl <;> rcases second with rfl | rfl <;> rfl
  · have single : ∀ more : List Char, c ∈ [':', '<', '>'] →
        ∀ e ∈ (d :: more).head?, e ∉ ['=', '>'] := by
      rintro more first _ ⟨⟩ second
      exact double ⟨first, second⟩
    rw [Symbol.split?_cons (single rest), Symbol.split?_cons (single [])]
    cases Symbol.split? [c] <;> rfl

theorem AtGap.split?_append {behind : List Char} (gap : AtGap behind) (c : Char)
    (text : List Char) :
    Symbol.split? (c :: (text ++ behind)) =
      (Symbol.split? (c :: text)).map fun (s, rest) => (s, rest ++ behind) := by
  cases text with
  | nil =>
    have single : c ∈ [':', '<', '>'] → ∀ d ∈ behind.head?, d ∉ ['=', '>'] := by
      intro _ d first
      have other : ∀ d ∈ gapOpeners, d ∉ ['=', '>'] := forall_mem_of_all (by decide)
      exact other d (gap d first)
    have alone : Symbol.split? [c] = (Symbol.split? [c]).map fun (s, _) => (s, []) :=
      Symbol.split?_cons (by rintro _ _ ⟨⟩)
    rw [List.nil_append, Symbol.split?_cons single, alone]
    cases Symbol.split? [c] <;> rfl
  | cons d text =>
    rw [List.cons_append, Symbol.split?_cons_cons c d (text ++ behind),
      Symbol.split?_cons_cons c d text]
    cases Symbol.split? [c, d] with
    | none => rfl
    | some found => simp only [Option.map_some, List.append_assoc]

/-- What is found at the front of a text does not depend on a gap behind it, except for a comment
that is not closed, and for a name with a colon when the gap opens a type. -/
theorem AtGap.munch_append {behind : List Char} (gap : AtGap behind) (c : Char) (text : List Char)
    (closes : c = '\x7b' → '\x7d' ∈ text)
    (noType : ∀ word blanks, IsName word → c :: text = word ++ ':' :: blanks →
      blanks.all isBlank = true → opensType behind = false) :
    munch (c :: (text ++ behind)) = (munch (c :: text)).before behind := by
  by_cases opens : c ∈ gapOpeners
  · by_cases comment : c = '\x7b'
    · obtain ⟨inside, after, rfl, first⟩ := List.eq_append_cons_of_mem (closes comment)
      rw [comment, List.append_assoc, List.cons_append, munch_comment first, munch_comment first]
      rfl
    · simp only [gapOpeners, List.mem_cons, List.not_mem_nil, or_false, comment] at opens
      rcases opens with rfl | rfl | rfl | rfl | rfl <;> rfl
  · rw [munch_of_not_mem_gapOpeners opens, munch_of_not_mem_gapOpeners opens]
    by_cases digit : c.isDigit = true
    · rw [if_pos digit, if_pos digit]
      exact gap.munchNumber_append (c :: text)
    · rw [if_neg digit, if_neg digit]
      by_cases letter : c.isAlpha = true
      · rw [if_pos letter, if_pos letter]
        exact gap.munchWord_append letter text noType
      · rw [if_neg letter, if_neg letter]
        by_cases point : c = '.'
        · have tail := gap.realTail?_append [] (c :: text)
          rw [List.cons_append] at tail
          rw [if_pos point, if_pos point, tail]
          cases realTail? [] (c :: text) <;> rfl
        · rw [if_neg point, if_neg point, gap.split?_append]
          cases Symbol.split? (c :: text) <;> rfl

/-- The tokenizer comes to the end part of a text, step by step from the text. -/
inductive ReachedFrom (part : List Char) : List Char → Prop
  | here : ReachedFrom part part
  | step {text rest : List Char} (found : (munch text).rest? = some rest)
      (later : ReachedFrom part rest) : ReachedFrom part text

namespace ReachedFrom

variable {part text : List Char}

theorem length_le (reached : ReachedFrom part text) : part.length ≤ text.length := by
  induction reached with
  | here => exact Nat.le_refl _
  | @step text rest found _ ih =>
    cases text with
    | nil =>
      cases found
      exact ih
    | cons c text =>
      have shorter := munch_rest_length_le found
      rw [List.length_cons]
      omega

/-- A comment that opens in front of a part that is reached is closed in front of it. -/
theorem closes {inside rest : List Char}
    (found : (munch ('\x7b' :: (inside ++ part))).rest? = some rest)
    (later : ReachedFrom part rest) : '\x7d' ∈ inside := by
  by_contra open_
  have run : (splitRun (· != '\x7d') (inside ++ part)).2 = part.dropWhile (· != '\x7d') := by
    refine List.dropWhile_append_of_pos fun c member => bne_iff_ne.2 ?_
    rintro rfl
    exact open_ member
  have shorter := (List.dropWhile_suffix (l := part) (· != '\x7d')).length_le
  have far := later.length_le
  change (munchComment (inside ++ part)).rest? = some rest at found
  unfold munchComment at found
  split at found
  · cases found
  · rename_i inner brace tail ends
    cases found
    rw [ends] at run
    rw [← run, List.length_cons] at shorter
    omega

end ReachedFrom

/-- Where the tokenizer comes to the end part of a text, that part may be exchanged for one with the
same tokens, if both begin with a gap and open no type behind a name with a colon. -/
theorem tokensFrom_exchange {text one other : List Char} (reached : ReachedFrom one text)
    (gap : AtGap one) (gapOther : AtGap other)
    (same : ∀ line, tokensFrom line other = tokensFrom line one)
    (noType : opensType one = false)
    (apart : ∀ word blanks, IsName word → blanks.all isBlank = true →
      ReachedFrom (word ++ ':' :: (blanks ++ one)) text → opensType other = false)
    {before : List Char} (split : text = before ++ one) (line : Nat) :
    tokensFrom line (before ++ other) = tokensFrom line (before ++ one) := by
  induction reached generalizing before line with
  | here =>
    obtain rfl := List.self_eq_append_left.1 split
    exact same line
  | @step text rest found later ih =>
    cases before with
    | nil => exact same line
    | cons c before =>
      subst split
      have closes : c = '\x7b' → '\x7d' ∈ before := by
        rintro rfl
        exact later.closes found
      -- One step finds the same in both texts, since neither part can go on with it.
      have inOne : munch (c :: (before ++ one)) = (munch (c :: before)).before one :=
        gap.munch_append c before closes fun _ _ _ _ _ => noType
      have inOther : munch (c :: (before ++ other)) = (munch (c :: before)).before other := by
        refine gapOther.munch_append c before closes fun word blanks name whole blank => ?_
        apply apart word blanks name blank
        rw [whole, List.append_assoc]
        exact .here
      have later' : ∀ word blanks, IsName word → blanks.all isBlank = true →
          ReachedFrom (word ++ ':' :: (blanks ++ one)) rest → opensType other = false :=
        fun word blanks name blank reached => apart word blanks name blank (.step found reached)
      rw [List.cons_append, inOne] at found
      rw [List.cons_append, List.cons_append]
      cases first : munch (c :: before) with
      | token t after =>
        rw [first] at inOne inOther found
        cases found
        rw [tokensFrom_of_token inOne, tokensFrom_of_token inOther, ih later' rfl]
      | pass newlines after =>
        rw [first] at inOne inOther found
        cases found
        rw [tokensFrom_of_pass inOne, tokensFrom_of_pass inOther, ih later' rfl]
      | fault f =>
        rw [first] at found
        cases found

/-- The blank that a comment is replaced by, with the newlines inside the comment. -/
def blankFor (inside : List Char) : List Char :=
  ' ' :: List.replicate (inside.count '\n') '\n'

theorem gap_blankFor (inside : List Char) : Gap (blankFor inside) := by
  refine .blank (by decide) ?_
  induction inside.count '\n' with
  | zero => exact .nil
  | succ n ih => exact .blank (by decide) ih

theorem count_blankFor (inside : List Char) :
    (blankFor inside).count '\n' = inside.count '\n' := by
  rw [blankFor, List.count_cons_of_ne (by decide), List.count_replicate_self]

theorem isBlank_blankFor (inside : List Char) : (blankFor inside).all isBlank = true := by
  rw [blankFor, List.all_cons, List.all_replicate]
  split <;> decide

/-- A blank that stands for a comment does the same as the comment. -/
theorem tokensFrom_blankFor {inside : List Char} (closes : '\x7d' ∉ inside) (after : List Char)
    (line : Nat) :
    tokensFrom line (blankFor inside ++ after) =
      tokensFrom line ('\x7b' :: (inside ++ '\x7d' :: after)) := by
  have passed := munch_comment closes after
  rw [(gap_blankFor inside).tokensFrom, count_blankFor, tokensFrom_of_pass passed]

/-- A whole comment that the tokenizer comes to may be replaced by a blank and its newlines, with
the same tokens on the same lines or the same error, unless a type follows it and the tokenizer
comes to a name that only a colon and blanks divide from the comment. -/
theorem tokenize_comment (before inside after : List Char) (closes : '\x7d' ∉ inside)
    (reached : ReachedFrom ('\x7b' :: (inside ++ '\x7d' :: after))
      (before ++ '\x7b' :: (inside ++ '\x7d' :: after)))
    (apart : ∀ word blanks, IsName word → blanks.all isBlank = true →
      ReachedFrom (word ++ ':' :: (blanks ++ '\x7b' :: (inside ++ '\x7d' :: after)))
        (before ++ '\x7b' :: (inside ++ '\x7d' :: after)) → opensType after = false) :
    tokenize (String.ofList (before ++ (blankFor inside ++ after))) =
      tokenize (String.ofList (before ++ '\x7b' :: (inside ++ '\x7d' :: after))) := by
  have brace : AtGap ('\x7b' :: (inside ++ '\x7d' :: after)) := by
    rintro _ ⟨⟩
    decide
  have blank : AtGap (blankFor inside ++ after) := by
    rintro _ ⟨⟩
    decide
  rw [tokenize, tokenize, String.toList_ofList, String.toList_ofList]
  refine tokensFrom_exchange reached brace blank (tokensFrom_blankFor closes after)
    (opensType_of_not_isAlpha (by decide) (by decide)) ?_ rfl 1
  intro word blanks name blank met
  exact (gap_blankFor inside).opensType (apart word blanks name blank met)

theorem opensType_blanks {blanks : List Char} (blank : blanks.all isBlank = true)
    (text : List Char) : opensType (blanks ++ text) = opensType text := by
  have skipped : trimStart (blanks ++ text) = trimStart text :=
    List.dropWhile_append_of_pos fun c member => List.all_eq_true.1 blank c member
  rw [opensType, opensType, skipped]

theorem Symbol.split?_colon {text : List Char} (noAssign : ∀ rest, text ≠ '=' :: rest) :
    Symbol.split? (':' :: text) = some (.colon, text) := by
  rw [Symbol.split?]
  exact noAssign

/-- A name with a colon is a label, unless a type follows. -/
theorem tokensFrom_name_colon {word text : List Char} (name : IsName word)
    (noAssign : ∀ rest, text ≠ '=' :: rest) (line : Nat) :
    tokensFrom line (word ++ ':' :: text) =
      if opensType text then
        (tokensFrom line text).map fun ts =>
          ⟨.identifier (String.ofList word), line⟩ :: ⟨.symbol .colon, line⟩ :: ts
      else (tokensFrom line text).map (⟨.label (String.ofList word), line⟩ :: ·) := by
  have colon : ∀ c ∈ (':' :: text).head?, isWordChar c = false := by
    rintro _ ⟨⟩
    decide
  have found : munch (word ++ ':' :: text) =
      if opensType text then .token (.identifier (String.ofList word)) (':' :: text)
      else .token (.label (String.ofList word)) text := by
    rw [name.munch, munchWord, name.splitRun colon]
    simp only [Keyword.ofWord?_eq_none_iff.2 name.free, makesLabel_colon noAssign]
    cases opensType text <;> rfl
  cases type : opensType text with
  | true =>
    rw [type, if_pos rfl] at found
    have next : munch (':' :: text) = .token (.symbol .colon) text := by
      rw [munch_of_not_mem_gapOpeners (by decide), Symbol.split?_colon noAssign]
      rfl
    rw [tokensFrom_of_munch found, tokensFrom_of_token next, if_pos rfl]
    cases tokensFrom line text <;> rfl
  | false =>
    rw [type, if_neg Bool.false_ne_true] at found
    rw [tokensFrom_of_munch found, if_neg Bool.false_ne_true]

/-- Behind a name, a colon and blanks, a comment hides a type, and a blank does not. With the
comment there is a label, and with the blank there is a name in front of a colon. -/
theorem tokensFrom_comment_before_type {word blanks after : List Char} (name : IsName word)
    (blank : blanks.all isBlank = true) (type : opensType after = true) (inside : List Char)
    (line : Nat) :
    tokensFrom line (word ++ ':' :: (blanks ++ '\x7b' :: (inside ++ '\x7d' :: after))) =
        (tokensFrom line (blanks ++ '\x7b' :: (inside ++ '\x7d' :: after))).map
          (⟨.label (String.ofList word), line⟩ :: ·) ∧
      tokensFrom line (word ++ ':' :: (blanks ++ (blankFor inside ++ after))) =
        (tokensFrom line (blanks ++ (blankFor inside ++ after))).map fun ts =>
          ⟨.identifier (String.ofList word), line⟩ :: ⟨.symbol .colon, line⟩ :: ts := by
  have noAssign : ∀ rest, rest.head? ≠ some '=' → ∀ more, blanks ++ rest ≠ '=' :: more := by
    intro rest starts more same
    cases blanks with
    | nil => exact starts (congrArg List.head? same)
    | cons c blanks =>
      obtain ⟨rfl, _⟩ := List.cons.inj same
      exact absurd (List.all_eq_true.1 blank '=' List.mem_cons_self) (by decide)
  have hidden : opensType (blanks ++ '\x7b' :: (inside ++ '\x7d' :: after)) = false := by
    rw [opensType_blanks blank]
    exact opensType_of_not_isAlpha (by decide) (by decide)
  have shown : opensType (blanks ++ (blankFor inside ++ after)) = true := by
    rw [opensType_blanks blank, opensType_blanks (isBlank_blankFor inside), type]
  constructor
  · have brace : ('\x7b' :: (inside ++ '\x7d' :: after)).head? ≠ some '=' := by
      rw [List.head?_cons]
      decide
    rw [tokensFrom_name_colon name (noAssign _ brace), hidden, if_neg Bool.false_ne_true]
  · have space : (blankFor inside ++ after).head? ≠ some '=' := by
      rw [blankFor, List.cons_append, List.head?_cons]
      decide
    rw [tokensFrom_name_colon name (noAssign _ space), if_pos shown]

example : tokenize "x:\x7bc\x7d integer" = .ok [⟨.label "x", 1⟩, ⟨.keyword .integer, 1⟩] := by
  with_unfolding_all rfl

end GotoLang
