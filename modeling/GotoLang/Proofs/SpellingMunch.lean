import GotoLang.Proofs.Spelling

set_option autoImplicit false

namespace GotoLang

namespace AtGap

variable {text : List Char} (gap : AtGap text)

include gap

theorem exponent?_eq_none : exponent? text = none := by
  cases text with
  | nil => rfl
  | cons c rest =>
    have other : ∀ c ∈ gapOpeners, ¬ (c = 'e' ∨ c = 'E') := forall_mem_of_all (by decide)
    rw [exponent?, if_neg (other c (gap c rfl))]

theorem realTail?_eq_none (whole : List Char) : realTail? whole text = none := by
  unfold realTail?
  rw [gap.exponent?_eq_none]
  split
  · exact absurd rfl (gap.ne_cons (by decide))
  · rfl

theorem radixDigits?_eq_none : radixDigits? text = none := by
  cases text with
  | nil => rfl
  | cons c rest =>
    have other : ∀ c ∈ gapOpeners, ¬ (c = 'x' ∨ c = 'X') ∧ ¬ (c = 'b' ∨ c = 'B') :=
      forall_mem_of_all (by decide)
    obtain ⟨noHex, noBinary⟩ := other c (gap c rfl)
    simp only [radixDigits?, if_neg noHex, if_neg noBinary]

theorem makesLabel_eq_false : makesLabel text = false := by
  unfold makesLabel
  split
  · exact absurd rfl (gap.ne_cons (by decide))
  · exact absurd rfl (gap.ne_cons (by decide))
  · rfl

end AtGap

/-- Outside of gaps the first character tells what kind of token is next. -/
theorem munch_of_not_mem_gapOpeners {c : Char} {rest : List Char} (solid : c ∉ gapOpeners) :
    munch (c :: rest) =
      if c.isDigit then munchNumber (c :: rest)
      else if c.isAlpha then munchWord (c :: rest)
      else if c = '.' then
        match realTail? [] (c :: rest) with
        | some (d, rest) => .token (.real (.ofDecimal false d)) rest
        | none => .pass 0 rest
      else
        match Symbol.split? (c :: rest) with
        | some (s, rest) => .token (.symbol s) rest
        | none => .fault (.strayCharacter c) := by
  simp only [gapOpeners, List.mem_cons, List.not_mem_nil, or_false, not_or] at solid
  obtain ⟨space, tab, cr, feed, newline, brace⟩ := solid
  have blank : ¬ (c = ' ' ∨ c = '\t' ∨ c = '\r' ∨ c = '\x0c') := by
    simp only [space, tab, cr, feed, or_self, not_false_eq_true]
  unfold munch
  exact (if_neg newline).trans ((if_neg blank).trans (if_neg brace))

theorem IsWord.munch {word : List Char} (is : IsWord word) (rest : List Char) :
    GotoLang.munch (word ++ rest) = munchWord (word ++ rest) := by
  obtain ⟨c, others, rfl, letter⟩ := is.letter
  have solid := not_mem_gapOpeners_of_isWordChar (isWordChar_of_isAlpha letter)
  rw [List.cons_append, munch_of_not_mem_gapOpeners solid, isDigit_of_isAlpha letter, letter]
  rfl

theorem munch_keyword {k : Keyword} {word rest : List Char}
    (same : word.map Char.toLower = k.spelling.toList) (gap : AtGap rest) :
    munch (word ++ rest) = .token (.keyword k) rest := by
  have is := Keyword.isWord_of_spelling same
  rw [is.munch, munchWord, is.splitRun (gap.outside (by decide))]
  simp only [Keyword.ofWord?_of_spelling same]

theorem munch_identifier {word rest : List Char} (is : IsName word) (gap : AtGap rest) :
    munch (word ++ rest) = .token (.identifier (String.ofList word)) rest := by
  rw [is.munch, munchWord, is.splitRun (gap.outside (by decide))]
  simp only [Keyword.ofWord?_eq_none_iff.2 is.free, gap.makesLabel_eq_false, Bool.false_eq_true,
    if_false]

theorem makesLabel_colon {text : List Char} (noAssign : ∀ rest, text ≠ '=' :: rest) :
    makesLabel (':' :: text) = !opensType text := by
  unfold makesLabel
  split
  · rename_i assign
    exact absurd (List.cons.inj assign).2 (noAssign _)
  · rename_i colon
    rw [(List.cons.inj colon).2]
  · rename_i other
    exact absurd rfl (other text)

/-- A colon makes a name a label if what follows it does not open a type. -/
theorem munch_label {word rest : List Char} (is : IsName word) (gap : AtGap rest)
    (noType : opensType rest = false) :
    munch (word ++ ':' :: rest) = .token (.label (String.ofList word)) rest := by
  have makes : makesLabel (':' :: rest) = true := by
    rw [makesLabel_colon fun _ => gap.ne_cons (by decide), noType]
    rfl
  have colon : ∀ c ∈ (':' :: rest).head?, isWordChar c = false := by
    rintro _ ⟨⟩
    decide
  rw [is.munch, munchWord, is.splitRun colon]
  simp only [Keyword.ofWord?_eq_none_iff.2 is.free, makes, if_true, List.drop_succ_cons,
    List.drop_zero]

theorem Symbol.split?_spelling (s : Symbol) {rest : List Char} (gap : AtGap rest) :
    split? (s.spelling.toList ++ rest) = some (s, rest) := by
  cases rest with
  | nil => cases s <;> rfl
  | cons c rest =>
    have opens := gap c rfl
    simp only [gapOpeners, List.mem_cons, List.not_mem_nil, or_false] at opens
    rcases opens with rfl | rfl | rfl | rfl | rfl | rfl <;> cases s <;> rfl

theorem munch_symbol (s : Symbol) {rest : List Char} (gap : AtGap rest) :
    munch (s.spelling.toList ++ rest) = .token (.symbol s) rest := by
  have found := s.split?_spelling gap
  obtain ⟨c, others, starts, solid, noDigit, noLetter, noPoint⟩ : ∃ c others,
      s.spelling.toList = c :: others ∧ c ∉ gapOpeners ∧ c.isDigit = false ∧ c.isAlpha = false ∧
        c ≠ '.' := by
    cases s <;> exact ⟨_, _, rfl, by decide⟩
  rw [starts, List.cons_append] at found ⊢
  simp only [munch_of_not_mem_gapOpeners solid, noDigit, noLetter, noPoint, found, if_false,
    Bool.false_eq_true]

theorem munch_of_isDigit {c : Char} {rest : List Char} (digit : c.isDigit = true) :
    munch (c :: rest) = munchNumber (c :: rest) := by
  have solid := not_mem_gapOpeners_of_isWordChar (isWordChar_of_isDigit digit)
  rw [munch_of_not_mem_gapOpeners solid, if_pos digit]

theorem munch_digits {digits rest : List Char} (filled : digits ≠ [])
    (inside : digits.all Char.isDigit = true) :
    munch (digits ++ rest) = munchNumber (digits ++ rest) := by
  obtain ⟨c, others, rfl⟩ := List.exists_cons_of_ne_nil filled
  rw [List.all_cons, Bool.and_eq_true] at inside
  exact munch_of_isDigit inside.1

theorem munchNumber_run {digits rest : List Char} (inside : digits.all Char.isDigit = true)
    (gap : AtGap rest) : munchNumber (digits ++ rest) = .token (.ofDecimalRun digits) rest := by
  unfold munchNumber
  rw [splitRun_run_append inside (gap.outside (by decide))]
  simp only [gap.radixDigits?_eq_none, ite_self, gap.realTail?_eq_none]

theorem Token.ofNat?_eq_some {value : Nat} {n : Int64} (same : (value : Int) = n.toInt) :
    Token.ofNat? value = some (.integer n) := by
  rw [ofNat?, int64?_eq_some_iff.2 same.symm]
  rfl

theorem Token.ofDecimalRun_decimal {digits : List Char} {n : Int64}
    (bare : digits.head? = some '0' → digits = ['0'])
    (value : (ofDigits 10 digits : Int) = n.toInt) : Token.ofDecimalRun digits = .integer n := by
  have notOctal : ¬ (1 < digits.length ∧ digits.head? = some '0' ∧
      digits.all isOctalDigit = true) := by
    rintro ⟨long, zero, -⟩
    rw [bare zero] at long
    exact absurd long (by decide)
  simp only [ofDecimalRun, if_neg notOctal, Token.ofNat?_eq_some value]
  rfl

theorem Token.ofDecimalRun_octal {digits : List Char} {n : Int64} (filled : digits ≠ [])
    (inside : digits.all isOctalDigit = true) (value : (ofDigits 8 digits : Int) = n.toInt) :
    Token.ofDecimalRun ('0' :: digits) = .integer n := by
  have octal : 1 < ('0' :: digits).length ∧ ('0' :: digits).head? = some '0' ∧
      ('0' :: digits).all isOctalDigit = true := by
    refine ⟨Nat.succ_lt_succ (List.length_pos_iff.2 filled), rfl, ?_⟩
    rw [List.all_cons, inside]
    rfl
  have same : ofDigits 8 ('0' :: digits) = ofDigits 8 digits := rfl
  simp only [ofDecimalRun, if_pos octal, same, Token.ofNat?_eq_some value]
  rfl

theorem RadixMark.radixDigits? {mark : Char} {base : Nat} {inBase : Char → Bool}
    (marks : RadixMark mark base inBase) {digits rest : List Char} (filled : digits ≠ [])
    (inside : digits.all inBase = true) (gap : AtGap rest) :
    GotoLang.radixDigits? (mark :: (digits ++ rest)) = some (mark, base, digits, rest) := by
  cases marks with
  | hex marks =>
    simp only [GotoLang.radixDigits?, if_pos marks,
      splitRun_run_append inside (gap.outside (by decide)), if_neg filled]
  | binary marks =>
    have noHex : ¬ (mark = 'x' ∨ mark = 'X') := by
      rcases marks with rfl | rfl <;> decide
    simp only [GotoLang.radixDigits?, if_neg noHex, if_pos marks,
      splitRun_run_append inside (gap.outside (by decide)), if_neg filled]

/-- Digits behind the mark of their base are one number, or a fault if it does not fit. -/
theorem RadixMark.munch {mark : Char} {base : Nat} {inBase : Char → Bool}
    (marks : RadixMark mark base inBase) {digits rest : List Char} (filled : digits ≠ [])
    (inside : digits.all inBase = true) (gap : AtGap rest) :
    GotoLang.munch ('0' :: mark :: (digits ++ rest)) =
      match Token.ofNat? (ofDigits base digits) with
      | some t => .token t rest
      | none => .fault (.invalidNumber (String.ofList ('0' :: mark :: digits))) := by
  have noDigit : ∀ c ∈ (mark :: (digits ++ rest)).head?, c.isDigit = false := by
    rintro _ ⟨⟩
    cases marks with
    | hex marks | binary marks => rcases marks with rfl | rfl <;> decide
  have zero : splitRun Char.isDigit (['0'] ++ mark :: (digits ++ rest)) =
      (['0'], mark :: (digits ++ rest)) := splitRun_run_append rfl noDigit
  rw [List.singleton_append] at zero
  rw [munch_of_isDigit rfl, munchNumber, zero]
  cases fits : Token.ofNat? (ofDigits base digits) <;>
    simp only [if_true, marks.radixDigits? filled inside gap, fits]

theorem splitSign_digits {digits rest : List Char} (filled : digits ≠ [])
    (inside : digits.all Char.isDigit = true) :
    splitSign (digits ++ rest) = (false, digits ++ rest) := by
  obtain ⟨c, others, rfl⟩ := List.exists_cons_of_ne_nil filled
  rw [List.all_cons, Bool.and_eq_true] at inside
  unfold splitSign
  split
  · rename_i same
    cases same
    cases inside.1
  · rename_i same
    cases same
    cases inside.1
  · rfl

theorem ExponentForm.exponent? {text rest : List Char} {e : Int} (form : ExponentForm text e)
    (gap : AtGap rest) : GotoLang.exponent? (text ++ rest) = some (e, rest) := by
  cases form with
  | @mk mark sign digits negative marks signs filled inside =>
    have signed : splitSign (sign ++ (digits ++ rest)) = (negative, digits ++ rest) := by
      simp only [List.mem_cons, Prod.mk.injEq, List.not_mem_nil, or_false] at signs
      rcases signs with ⟨rfl, rfl⟩ | ⟨rfl, rfl⟩ | ⟨rfl, rfl⟩
      · rw [List.nil_append, splitSign_digits filled inside]
      · rfl
      · rfl
    rw [List.cons_append, List.append_assoc, GotoLang.exponent?, if_pos marks, signed]
    simp only [splitRun_run_append inside (gap.outside (by decide)), if_neg filled]

theorem RealTail.realTail? {whole tail rest : List Char} {d : Decimal}
    (form : RealTail whole tail d) (gap : AtGap rest) :
    GotoLang.realTail? whole (tail ++ rest) = some (d, rest) := by
  cases form with
  | point filled inside =>
    simp only [GotoLang.realTail?, List.cons_append,
      splitRun_run_append inside (gap.outside (by decide)), if_neg filled, gap.exponent?_eq_none]
  | pointExponent filled inside scaled =>
    have found := scaled.exponent? gap
    obtain ⟨mark, others, rfl, marks⟩ := scaled.exists_cons
    have noDigit : ∀ c ∈ (mark :: others ++ rest).head?, c.isDigit = false := by
      rintro _ ⟨⟩
      rcases marks with rfl | rfl <;> decide
    rw [List.cons_append, List.append_assoc]
    simp only [GotoLang.realTail?, splitRun_run_append inside noDigit, if_neg filled, found]
  | exponent filled scaled =>
    have found := scaled.exponent? gap
    obtain ⟨mark, others, rfl, marks⟩ := scaled.exists_cons
    unfold GotoLang.realTail?
    rw [found]
    split
    · rename_i same
      cases same
      rcases marks with same | same <;> cases same
    · rfl

theorem munch_real {whole tail rest : List Char} {d : Decimal}
    (inside : whole.all Char.isDigit = true) (form : RealTail whole tail d) (gap : AtGap rest) :
    munch (whole ++ (tail ++ rest)) = .token (.real (.ofDecimal false d)) rest := by
  have found := form.realTail? gap
  obtain ⟨c, others, rfl, starts, leading⟩ := form.exists_cons
  cases whole with
  | nil =>
    obtain rfl := leading rfl
    rw [List.cons_append] at found ⊢
    rw [List.nil_append, munch_of_not_mem_gapOpeners (by decide), found]
    rfl
  | cons first whole =>
    have noDigit : ∀ e ∈ (c :: others ++ rest).head?, e.isDigit = false := by
      rintro _ ⟨⟩
      have other : ∀ e ∈ ['.', 'e', 'E'], e.isDigit = false := forall_mem_of_all (by decide)
      exact other c starts
    have noRadix : radixDigits? (c :: others ++ rest) = none := by
      have other : ∀ e ∈ ['.', 'e', 'E'], ¬ (e = 'x' ∨ e = 'X') ∧ ¬ (e = 'b' ∨ e = 'B') :=
        forall_mem_of_all (by decide)
      obtain ⟨noHex, noBinary⟩ := other c starts
      simp only [List.cons_append, radixDigits?, if_neg noHex, if_neg noBinary]
    rw [munch_digits (List.cons_ne_nil _ _) inside, munchNumber, splitRun_run_append inside noDigit]
    simp only [noRadix, ite_self, found]

/-- The tokenizer finds a spelled token in front of a gap. Behind a label no type may follow. -/
theorem Spells.munch {t : Token} {text rest : List Char} (spells : Spells t text) (gap : AtGap rest)
    (noType : t.isLabel = true → GotoLang.opensType rest = false) :
    GotoLang.munch (text ++ rest) = .token t rest := by
  cases spells with
  | keyword same => exact munch_keyword same gap
  | identifier is => exact munch_identifier is gap
  | label is =>
    rw [List.append_assoc]
    exact munch_label is gap (noType rfl)
  | symbol => exact munch_symbol _ gap
  | decimal filled inside bare value =>
    rw [munch_digits filled inside, munchNumber_run inside gap,
      Token.ofDecimalRun_decimal bare value]
  | octal filled inside value =>
    have digits : ('0' :: _).all Char.isDigit = true :=
      List.all_eq_true.2 (List.forall_mem_cons.2 ⟨rfl, fun c member =>
        isDigit_of_isOctalDigit (List.all_eq_true.1 inside c member)⟩)
    rw [munch_digits (List.cons_ne_nil _ _) digits, munchNumber_run digits gap,
      Token.ofDecimalRun_octal filled inside value]
  | radix marks filled inside value =>
    rw [List.cons_append, List.cons_append, marks.munch filled inside gap,
      Token.ofNat?_eq_some value]
  | real inside form =>
    rw [List.append_assoc]
    exact munch_real inside form gap

end GotoLang
