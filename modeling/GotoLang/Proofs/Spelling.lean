import GotoLang.Token.Scan

set_option autoImplicit false

namespace GotoLang

/-- The characters that may stand between tokens: blanks, and the brace that opens a comment. -/
def gapOpeners : List Char := [' ', '\t', '\r', '\x0c', '\n', '\x7b']

/-- The text is at its end, or at a blank or a comment. -/
def AtGap (text : List Char) : Prop :=
  ∀ c ∈ text.head?, c ∈ gapOpeners

/-- What holds of the characters of a short list is found out by looking at each. -/
theorem forall_mem_of_all {property : Char → Prop} [DecidablePred property] {chars : List Char}
    (all : chars.all (fun c => decide (property c)) = true) : ∀ c ∈ chars, property c :=
  fun c member => of_decide_eq_true (List.all_eq_true.1 all c member)

theorem splitRun_run_append {inClass : Char → Bool} {run rest : List Char}
    (inside : run.all inClass = true) (outside : ∀ c ∈ rest.head?, inClass c = false) :
    splitRun inClass (run ++ rest) = (run, rest) := by
  induction run with
  | nil =>
    cases rest with
    | nil => rfl
    | cons c rest =>
      have stops := outside c rfl
      simp only [splitRun, List.nil_append, List.takeWhile_cons, List.dropWhile_cons, stops,
        Bool.false_eq_true, if_false]
  | cons c run ih =>
    rw [List.all_cons, Bool.and_eq_true] at inside
    have others := Prod.mk.inj (ih inside.2)
    simp only [splitRun, List.cons_append, List.takeWhile_cons, List.dropWhile_cons, inside.1,
      if_true, others.1, others.2]

namespace AtGap

variable {text : List Char} (gap : AtGap text)

include gap

/-- No run goes on into a gap if the gap starts outside its class. -/
theorem outside {inClass : Char → Bool} (stops : gapOpeners.any inClass = false) :
    ∀ c ∈ text.head?, inClass c = false :=
  fun c first => Bool.eq_false_iff.2 (List.any_eq_false.1 stops c (gap c first))

theorem ne_cons {c : Char} {rest : List Char} (other : c ∉ gapOpeners) : text ≠ c :: rest := by
  rintro rfl
  exact other (gap c rfl)

end AtGap

theorem Keyword.ofWord?_of_spelling {k : Keyword} {word : List Char}
    (same : word.map Char.toLower = k.spelling.toList) : ofWord? word = some k := by
  rw [ofWord?, same]
  cases k <;> decide

theorem Keyword.ofWord?_eq_none_iff {word : List Char} :
    ofWord? word = none ↔ ∀ k : Keyword, word.map Char.toLower ≠ k.spelling.toList := by
  simp only [ofWord?, List.find?_eq_none, beq_iff_eq, Keyword.mem_all, forall_const]
  exact forall_congr' fun k => not_congr eq_comm

theorem isAlpha_of_toLower {c : Char} (letter : c.toLower.isAlpha = true) : c.isAlpha = true := by
  by_cases upper : c.isUpper = true
  · exact Bool.or_eq_true_iff.2 (.inl upper)
  · have same : c.toLower = c := dif_neg fun range => upper (decide_eq_true range)
    rwa [same] at letter

theorem range_of_isAlpha {c : Char} (letter : c.isAlpha = true) :
    'A'.val ≤ c.val ∧ c.val ≤ 'z'.val := by
  rcases Bool.or_eq_true_iff.1 letter with upper | lower
  · have range := of_decide_eq_true upper
    exact ⟨range.1, UInt32.le_trans range.2 (by decide)⟩
  · have range := Bool.and_eq_true_iff.1 lower
    exact ⟨UInt32.le_trans (by decide) (of_decide_eq_true range.1), of_decide_eq_true range.2⟩

theorem range_of_isDigit {c : Char} (digit : c.isDigit = true) :
    '0'.val ≤ c.val ∧ c.val ≤ '9'.val := by
  simpa only [Char.isDigit, Bool.and_eq_true, decide_eq_true_eq] using digit

theorem isDigit_of_isAlpha {c : Char} (letter : c.isAlpha = true) : c.isDigit = false := by
  rw [← Bool.not_eq_true]
  intro digit
  have impossible := UInt32.le_trans (range_of_isAlpha letter).1 (range_of_isDigit digit).2
  exact absurd impossible (by decide)

theorem isWordChar_of_isAlpha {c : Char} (letter : c.isAlpha = true) : isWordChar c = true := by
  rw [isWordChar, Char.isAlphanum, letter, Bool.true_or, Bool.true_or]

theorem not_mem_gapOpeners_of_isWordChar {c : Char} (word : isWordChar c = true) :
    c ∉ gapOpeners := by
  intro opens
  have other : ∀ c ∈ gapOpeners, isWordChar c = false := forall_mem_of_all (by decide)
  cases word.symm.trans (other c opens)

structure IsWord (word : List Char) : Prop where
  letter : ∃ c rest, word = c :: rest ∧ c.isAlpha = true
  inside : word.all isWordChar = true

/-- A name is a word that is no reserved word in any mixture of letter cases. -/
structure IsName (word : List Char) : Prop extends IsWord word where
  free : ∀ k : Keyword, word.map Char.toLower ≠ k.spelling.toList

theorem Keyword.isAlpha_of_mem_spelling {k : Keyword} {c : Char} (inside : c ∈ k.spelling.toList) :
    c.isAlpha = true := by
  have letters : k.spelling.toList.all Char.isAlpha = true := by cases k <;> decide
  exact List.all_eq_true.1 letters c inside

theorem Keyword.isWord_of_spelling {k : Keyword} {word : List Char}
    (same : word.map Char.toLower = k.spelling.toList) : IsWord word := by
  have letters : ∀ c ∈ word, c.isAlpha = true := by
    intro c inside
    have lower : c.toLower ∈ word.map Char.toLower := List.mem_map_of_mem inside
    rw [same] at lower
    exact isAlpha_of_toLower (isAlpha_of_mem_spelling lower)
  constructor
  · cases word with
    | nil => cases k <;> cases same
    | cons c rest => exact ⟨c, rest, rfl, letters c List.mem_cons_self⟩
  · exact List.all_eq_true.2 fun c inside => isWordChar_of_isAlpha (letters c inside)

theorem IsWord.splitRun {word rest : List Char} (is : IsWord word)
    (outside : ∀ c ∈ rest.head?, isWordChar c = false) :
    GotoLang.splitRun isWordChar (word ++ rest) = (word, rest) :=
  splitRun_run_append is.inside outside

theorem isWordChar_of_isDigit {c : Char} (digit : c.isDigit = true) : isWordChar c = true := by
  rw [isWordChar, Char.isAlphanum, digit, Bool.or_true, Bool.true_or]

theorem isDigit_of_isOctalDigit {c : Char} (octal : isOctalDigit c = true) : c.isDigit = true := by
  simp only [isOctalDigit, Char.isDigit, Bool.and_eq_true, decide_eq_true_eq] at octal ⊢
  exact ⟨octal.1, UInt32.le_trans octal.2 (by decide)⟩

/-- The base that a letter behind a leading zero marks, and the digits of that base. -/
inductive RadixMark : Char → Nat → (Char → Bool) → Prop
  | hex {mark : Char} (marks : mark = 'x' ∨ mark = 'X') : RadixMark mark 16 isHexDigit
  | binary {mark : Char} (marks : mark = 'b' ∨ mark = 'B') : RadixMark mark 2 isBinaryDigit

/-- An exponent and its value: a mark, an optional sign and digits. -/
inductive ExponentForm : List Char → Int → Prop
  | mk {mark : Char} {sign digits : List Char} {negative : Bool} (marks : mark = 'e' ∨ mark = 'E')
      (signs : (sign, negative) ∈ [([], false), (['+'], false), (['-'], true)])
      (filled : digits ≠ []) (inside : digits.all Char.isDigit = true) :
      ExponentForm (mark :: (sign ++ digits))
        (if negative then -(ofDigits 10 digits : Int) else ofDigits 10 digits)

theorem ExponentForm.exists_cons {text : List Char} {e : Int} (form : ExponentForm text e) :
    ∃ mark others, text = mark :: others ∧ (mark = 'e' ∨ mark = 'E') := by
  cases form with
  | mk marks _ _ _ => exact ⟨_, _, rfl, marks⟩

/-- What makes a number real, after its whole digits, and the value of the number: a point with
digits and an optional exponent, or an exponent alone. -/
inductive RealTail (whole : List Char) : List Char → Decimal → Prop
  | point {fraction : List Char} (filled : fraction ≠ [])
      (inside : fraction.all Char.isDigit = true) :
      RealTail whole ('.' :: fraction) (.ofParts whole fraction 0)
  | pointExponent {fraction exponent : List Char} {e : Int} (filled : fraction ≠ [])
      (inside : fraction.all Char.isDigit = true) (scaled : ExponentForm exponent e) :
      RealTail whole ('.' :: (fraction ++ exponent)) (.ofParts whole fraction e)
  | exponent {exponent : List Char} {e : Int} (filled : whole ≠ [])
      (scaled : ExponentForm exponent e) : RealTail whole exponent (.ofParts whole [] e)

theorem RealTail.exists_cons {whole tail : List Char} {d : Decimal} (form : RealTail whole tail d) :
    ∃ c others, tail = c :: others ∧ c ∈ ['.', 'e', 'E'] ∧ (whole = [] → c = '.') := by
  cases form with
  | point _ _ | pointExponent _ _ _ => exact ⟨'.', _, rfl, by decide, fun _ => rfl⟩
  | exponent filled scaled =>
    obtain ⟨mark, others, rfl, marks⟩ := scaled.exists_cons
    refine ⟨mark, others, rfl, ?_, fun nothing => absurd nothing filled⟩
    rcases marks with rfl | rfl <;> decide

/-- The ways to write a token. -/
inductive Spells : Token → List Char → Prop
  | keyword {k : Keyword} {word : List Char} (same : word.map Char.toLower = k.spelling.toList) :
      Spells (.keyword k) word
  | identifier {word : List Char} (is : IsName word) :
      Spells (.identifier (String.ofList word)) word
  | label {word : List Char} (is : IsName word) :
      Spells (.label (String.ofList word)) (word ++ [':'])
  | symbol {s : Symbol} : Spells (.symbol s) s.spelling.toList
  | decimal {n : Int64} {digits : List Char} (filled : digits ≠ [])
      (inside : digits.all Char.isDigit = true) (bare : digits.head? = some '0' → digits = ['0'])
      (value : (ofDigits 10 digits : Int) = n.toInt) : Spells (.integer n) digits
  | octal {n : Int64} {digits : List Char} (filled : digits ≠ [])
      (inside : digits.all isOctalDigit = true) (value : (ofDigits 8 digits : Int) = n.toInt) :
      Spells (.integer n) ('0' :: digits)
  | radix {n : Int64} {mark : Char} {base : Nat} {inBase : Char → Bool} {digits : List Char}
      (marks : RadixMark mark base inBase) (filled : digits ≠ [])
      (inside : digits.all inBase = true) (value : (ofDigits base digits : Int) = n.toInt) :
      Spells (.integer n) ('0' :: mark :: digits)
  | real {whole tail : List Char} {d : Decimal} (inside : whole.all Char.isDigit = true)
      (form : RealTail whole tail d) : Spells (.real (.ofDecimal false d)) (whole ++ tail)

def Token.isLabel : Token → Bool
  | label _ => true
  | _ => false

def Token.opensType : Token → Bool
  | keyword k => k.opensType
  | _ => false

theorem newline_not_mem {inClass : Char → Bool} {text : List Char}
    (inside : text.all inClass = true) (other : inClass '\n' = false) : '\n' ∉ text := by
  intro member
  cases other.symm.trans (List.all_eq_true.1 inside _ member)

theorem ExponentForm.newline_not_mem {text : List Char} {e : Int} (form : ExponentForm text e) :
    '\n' ∉ text := by
  cases form with
  | @mk mark sign digits negative marks signs filled inside =>
    have noMark : '\n' ≠ mark := by
      rcases marks with rfl | rfl <;> decide
    have noSign : ∀ s ∈ [([], false), (['+'], false), (['-'], true)], '\n' ∉ s.1 := by decide
    have noDigit := GotoLang.newline_not_mem inside (by decide)
    exact List.not_mem_cons_of_ne_of_not_mem noMark (List.not_mem_append (noSign _ signs) noDigit)

theorem RealTail.newline_not_mem {whole tail : List Char} {d : Decimal}
    (form : RealTail whole tail d) : '\n' ∉ tail := by
  cases form with
  | point _ inside =>
    exact List.not_mem_cons_of_ne_of_not_mem (by decide)
      (GotoLang.newline_not_mem inside (by decide))
  | pointExponent _ inside scaled =>
    exact List.not_mem_cons_of_ne_of_not_mem (by decide)
      (List.not_mem_append (GotoLang.newline_not_mem inside (by decide)) scaled.newline_not_mem)
  | exponent _ scaled => exact scaled.newline_not_mem

theorem RadixMark.newline_not_mem {mark : Char} {base : Nat} {inBase : Char → Bool}
    {digits : List Char} (marks : RadixMark mark base inBase) (inside : digits.all inBase = true) :
    '\n' ∉ mark :: digits := by
  cases marks with
  | hex marks | binary marks =>
    have noMark : '\n' ≠ mark := by
      rcases marks with rfl | rfl <;> decide
    exact List.not_mem_cons_of_ne_of_not_mem noMark (GotoLang.newline_not_mem inside (by decide))

/-- No token goes on from one line to the next. -/
theorem Spells.newline_not_mem {t : Token} {text : List Char} (spells : Spells t text) :
    '\n' ∉ text := by
  cases spells with
  | keyword same =>
    exact GotoLang.newline_not_mem (Keyword.isWord_of_spelling same).inside (by decide)
  | identifier is => exact GotoLang.newline_not_mem is.inside (by decide)
  | label is =>
    exact List.not_mem_append (GotoLang.newline_not_mem is.inside (by decide)) (by decide)
  | @symbol s => cases s <;> decide
  | decimal _ inside => exact GotoLang.newline_not_mem inside (by decide)
  | octal _ inside =>
    exact List.not_mem_cons_of_ne_of_not_mem (by decide)
      (GotoLang.newline_not_mem inside (by decide))
  | radix marks _ inside =>
    exact List.not_mem_cons_of_ne_of_not_mem (by decide) (marks.newline_not_mem inside)
  | real inside form =>
    exact List.not_mem_append (GotoLang.newline_not_mem inside (by decide)) form.newline_not_mem

theorem isBlank_of_isWordChar {c : Char} (word : isWordChar c = true) : isBlank c = false := by
  have range : '0'.val ≤ c.val ∧ c.val ≤ 'z'.val := by
    simp only [isWordChar, Char.isAlphanum, Bool.or_eq_true, beq_iff_eq] at word
    rcases word with (letter | digit) | rfl
    · have range := range_of_isAlpha letter
      exact ⟨UInt32.le_trans (by decide) range.1, range.2⟩
    · have range := range_of_isDigit digit
      exact ⟨range.1, UInt32.le_trans range.2 (by decide)⟩
    · decide
  have low : 0x30 ≤ c.toNat := UInt32.le_iff_toNat_le.1 range.1
  have high : c.toNat ≤ 0x7A := UInt32.le_iff_toNat_le.1 range.2
  simp only [isBlank, List.contains_cons, List.contains_nil, Bool.or_eq_false_iff,
    Bool.and_eq_false_iff, decide_eq_false_iff_not, beq_eq_false_iff_ne, and_true]
  omega

theorem trimStart_cons {c : Char} {text : List Char} (solid : isBlank c = false) :
    trimStart (c :: text) = c :: text := by
  rw [trimStart, List.dropWhile_cons, solid]
  rfl

/-- Whether a word opens a type does not depend on what follows it. -/
theorem IsWord.opensType {word rest : List Char} (is : IsWord word)
    (outside : ∀ c ∈ rest.head?, isWordChar c = false) :
    GotoLang.opensType (word ++ rest) = (Keyword.ofWord? word).any Keyword.opensType := by
  have solid : trimStart (word ++ rest) = word ++ rest := by
    obtain ⟨c, others, rfl, letter⟩ := is.letter
    exact trimStart_cons (isBlank_of_isWordChar (isWordChar_of_isAlpha letter))
  have whole : (word ++ rest).takeWhile isWordChar = word := congrArg Prod.fst (is.splitRun outside)
  rw [GotoLang.opensType, solid, whole]
  cases Keyword.ofWord? word <;> rfl

/-- A text that starts with neither a blank nor a letter opens no type. -/
theorem opensType_of_not_isAlpha {c : Char} {text : List Char} (solid : isBlank c = false)
    (other : c.isAlpha = false) : opensType (c :: text) = false := by
  have noWord : ∀ word, Keyword.ofWord? (c :: word) = none := by
    intro word
    rw [Keyword.ofWord?_eq_none_iff]
    intro k same
    obtain ⟨_, _, ⟨⟩, letter⟩ := (Keyword.isWord_of_spelling same).letter
    cases other.symm.trans letter
  rw [opensType, trimStart_cons solid, List.takeWhile_cons]
  split
  · rename_i k found
    split at found
    · rw [noWord] at found
      cases found
    · cases found
  · rfl

theorem opensType_digits {digits rest : List Char} (filled : digits ≠ [])
    (inside : digits.all Char.isDigit = true) : opensType (digits ++ rest) = false := by
  obtain ⟨c, others, rfl⟩ := List.exists_cons_of_ne_nil filled
  rw [List.all_cons, Bool.and_eq_true] at inside
  have noLetter : c.isAlpha = false := by
    rw [← Bool.not_eq_true]
    intro letter
    cases (isDigit_of_isAlpha letter).symm.trans inside.1
  exact opensType_of_not_isAlpha (isBlank_of_isWordChar (isWordChar_of_isDigit inside.1)) noLetter

/-- At a gap, only a reserved word that opens a type is taken for one. -/
theorem Spells.opensType {t : Token} {text rest : List Char} (spells : Spells t text)
    (gap : AtGap rest) (noType : t.opensType = false) :
    GotoLang.opensType (text ++ rest) = false := by
  have atGap : ∀ c ∈ rest.head?, isWordChar c = false := gap.outside (by decide)
  cases spells with
  | keyword same =>
    rw [(Keyword.isWord_of_spelling same).opensType atGap, Keyword.ofWord?_of_spelling same]
    exact noType
  | identifier is =>
    rw [is.opensType atGap, Keyword.ofWord?_eq_none_iff.2 is.free]
    rfl
  | label is =>
    have colon : ∀ c ∈ (':' :: rest).head?, isWordChar c = false := by
      rintro _ ⟨⟩
      decide
    rw [List.append_assoc, List.singleton_append, is.opensType colon,
      Keyword.ofWord?_eq_none_iff.2 is.free]
    rfl
  | @symbol s => cases s <;> exact opensType_of_not_isAlpha (by decide) (by decide)
  | decimal filled inside => exact opensType_digits filled inside
  | octal | radix => exact opensType_of_not_isAlpha (by decide) (by decide)
  | @real whole tail d inside form =>
    by_cases filled : whole = []
    · obtain ⟨c, others, rfl, _, leading⟩ := form.exists_cons
      obtain rfl := leading filled
      rw [filled]
      exact opensType_of_not_isAlpha (by decide) (by decide)
    · rw [List.append_assoc]
      exact opensType_digits filled inside

end GotoLang
