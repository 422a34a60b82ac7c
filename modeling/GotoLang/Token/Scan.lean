import GotoLang.SourceError

set_option autoImplicit false

namespace GotoLang

/-- What stands at the front of a text: a token, something to pass over that holds a number of
newlines, or a fault. -/
inductive Munch where
  | token (t : Token) (rest : List Char)
  | pass (newlines : Nat) (rest : List Char)
  | fault (f : SourceFault)

namespace Munch

def rest? : Munch → Option (List Char)
  | token _ rest | pass _ rest => some rest
  | fault _ => none

end Munch

/-- Whether a character may stand in a word after its first letter. -/
def isWordChar (c : Char) : Bool := c.isAlphanum || c == '_'

def isHexDigit (c : Char) : Bool :=
  c.isDigit || ('a' ≤ c.toLower && c.toLower ≤ 'f')

def isBinaryDigit (c : Char) : Bool := c == '0' || c == '1'

def isOctalDigit (c : Char) : Bool := '0' ≤ c && c ≤ '7'

/-- The integer token of a magnitude that fits in 64 bits with sign. -/
def Token.ofNat? (n : Nat) : Option Token :=
  (int64? n).map .integer

/-- The token of a run of decimal digits. A leading zero followed by octal digits makes it an
octal number, provided that fits; a decimal number that does not fit is a real. -/
def Token.ofDecimalRun (digits : List Char) : Token :=
  let octal? := if 1 < digits.length ∧ digits.head? = some '0' ∧ digits.all isOctalDigit then
    Token.ofNat? (ofDigits 8 digits) else none
  (octal? <|> Token.ofNat? (ofDigits 10 digits)).getD
    (.real (Binary64.ofDecimal false (.ofParts digits [] 0)))

/-- The digits of a number with a marker of its base, such as `x1F`, that follow a leading zero:
marker, base, digits and the text after them. -/
def radixDigits? : List Char → Option (Char × Nat × List Char × List Char)
  | [] => none
  | marker :: text =>
    let digitsIn (base : Nat) (inBase : Char → Bool) :=
      let (digits, rest) := splitRun inBase text
      if digits = [] then none else some (marker, base, digits, rest)
    if marker = 'x' ∨ marker = 'X' then digitsIn 16 isHexDigit
    else if marker = 'b' ∨ marker = 'B' then digitsIn 2 isBinaryDigit
    else none

/-- A real number after its whole digits: a point with digits and an optional exponent, or an
exponent alone. -/
def realTail? (whole text : List Char) : Option (Decimal × List Char) :=
  let exponentOnly := (exponent? text).map fun (e, rest) => (Decimal.ofParts whole [] e, rest)
  match text with
  | '.' :: after =>
    let (fraction, rest) := splitRun Char.isDigit after
    if fraction = [] then exponentOnly
    else
      match exponent? rest with
      | some (e, rest) => some (Decimal.ofParts whole fraction e, rest)
      | none => some (Decimal.ofParts whole fraction 0, rest)
  | _ => exponentOnly

def munchNumber (text : List Char) : Munch :=
  let (digits, rest) := splitRun Char.isDigit text
  match if digits = ['0'] then radixDigits? rest else none with
  | some (marker, base, inBase, rest) =>
    match Token.ofNat? (ofDigits base inBase) with
    | some t => .token t rest
    | none => .fault (.invalidNumber (String.ofList ('0' :: marker :: inBase)))
  | none =>
    match realTail? digits rest with
    | some (d, rest) => .token (.real (.ofDecimal false d)) rest
    | none => .token (.ofDecimalRun digits) rest

/-- Whether a text, after leading blanks, begins with the name of a type. -/
def opensType (text : List Char) : Bool :=
  match Keyword.ofWord? ((trimStart text).takeWhile isWordChar) with
  | some k => k.opensType
  | none => false

/-- Whether what follows a name makes it a label: a colon that neither begins `:=` nor introduces
a type. -/
def makesLabel : List Char → Bool
  | ':' :: '=' :: _ => false
  | ':' :: text => !opensType text
  | _ => false

def munchWord (text : List Char) : Munch :=
  let (word, rest) := splitRun isWordChar text
  match Keyword.ofWord? word with
  | some k => .token (.keyword k) rest
  | none =>
    if makesLabel rest then .token (.label (String.ofList word)) (rest.drop 1)
    else .token (.identifier (String.ofList word)) rest

/-- The comment at the front of a text, after its opening brace. -/
def munchComment (text : List Char) : Munch :=
  match splitRun (· != '\x7d') text with
  | (_, []) => .fault .unterminatedComment
  | (inside, _ :: rest) => .pass (inside.count '\n') rest

/-- The longest unit at the front of a text. -/
def munch : List Char → Munch
  | [] => .pass 0 []
  | c :: rest =>
    if c = '\n' then .pass 1 rest
    else if c = ' ' ∨ c = '\t' ∨ c = '\r' ∨ c = '\x0c' then .pass 0 rest
    else if c = '\x7b' then munchComment rest
    else if c.isDigit then munchNumber (c :: rest)
    else if c.isAlpha then munchWord (c :: rest)
    else if c = '.' then
      match realTail? [] (c :: rest) with
      | some (d, rest) => .token (.real (.ofDecimal false d)) rest
      | none => .pass 0 rest
    else
      match Symbol.split? (c :: rest) with
      | some (s, rest) => .token (.symbol s) rest
      | none => .fault (.strayCharacter c)

theorem radixDigits?_rest_length_lt {text digits rest : List Char} {marker : Char} {base : Nat}
    (h : radixDigits? text = some (marker, base, digits, rest)) : rest.length < text.length := by
  cases text with
  | nil => simp [radixDigits?] at h
  | cons c text =>
    have hex := splitRun_rest_length_le isHexDigit text
    have binary := splitRun_rest_length_le isBinaryDigit text
    simp only [radixDigits?] at h
    rw [List.length_cons]
    split at h
    · split at h
      · simp at h
      · simp only [Option.some.injEq, Prod.mk.injEq] at h
        rw [← h.2.2.2]
        omega
    · split at h
      · split at h
        · simp at h
        · simp only [Option.some.injEq, Prod.mk.injEq] at h
          rw [← h.2.2.2]
          omega
      · simp at h

theorem realTail?_rest_length_lt {whole text rest : List Char} {d : Decimal}
    (h : realTail? whole text = some (d, rest)) : rest.length < text.length := by
  have exponentOnly (t : List Char)
      (h : (exponent? t).map (fun (e, r) => (Decimal.ofParts whole [] e, r)) = some (d, rest)) :
      rest.length < t.length := by
    simp only [Option.map_eq_some_iff, Prod.mk.injEq, Prod.exists] at h
    obtain ⟨e, r, found, -, rfl⟩ := h
    exact exponent?_rest_length_lt found
  unfold realTail? at h
  split at h
  · next after =>
    have run := splitRun_rest_length_le Char.isDigit after
    rw [List.length_cons]
    simp only at h
    split at h
    · exact exponentOnly _ h
    · split at h
      · next e tail found =>
        have shorter := exponent?_rest_length_lt found
        simp only [Option.some.injEq, Prod.mk.injEq] at h
        rw [← h.2]
        omega
      · simp only [Option.some.injEq, Prod.mk.injEq] at h
        rw [← h.2]
        omega
  · exact exponentOnly _ h

/-- The rest after the longest run of a class that the first character is in. -/
theorem splitRun_rest_length_le_of_head {inClass : Char → Bool} {c : Char} {text : List Char}
    (h : inClass c) : (splitRun inClass (c :: text)).2.length ≤ text.length := by
  simp only [splitRun, List.dropWhile_cons, h, ↓reduceIte]
  exact (List.dropWhile_suffix inClass).length_le

theorem munchNumber_rest_length_le {c : Char} {text rest : List Char} (digit : c.isDigit)
    (h : (munchNumber (c :: text)).rest? = some rest) : rest.length ≤ text.length := by
  have run : (splitRun Char.isDigit (c :: text)).2.length ≤ text.length :=
    splitRun_rest_length_le_of_head digit
  unfold munchNumber at h
  simp only at h
  split at h
  · next marker base inBase tail found =>
    split at found
    · have shorter := radixDigits?_rest_length_lt found
      split at h <;> simp only [Munch.rest?, Option.some.injEq, reduceCtorEq] at h
      rw [← h]
      omega
    · simp at found
  · split at h
    · next d tail found =>
      have shorter := realTail?_rest_length_lt found
      simp only [Munch.rest?, Option.some.injEq] at h
      rw [← h]
      omega
    · simp only [Munch.rest?, Option.some.injEq] at h
      rw [← h]
      omega

theorem munchWord_rest_length_le {c : Char} {text rest : List Char} (letter : c.isAlpha)
    (h : (munchWord (c :: text)).rest? = some rest) : rest.length ≤ text.length := by
  have run : (splitRun isWordChar (c :: text)).2.length ≤ text.length :=
    splitRun_rest_length_le_of_head (by simp [isWordChar, Char.isAlphanum, letter])
  have tail := List.length_drop (i := 1) (l := (splitRun isWordChar (c :: text)).2)
  unfold munchWord at h
  simp only at h
  split at h
  · simp only [Munch.rest?, Option.some.injEq] at h
    rw [← h]
    omega
  · split at h <;> simp only [Munch.rest?, Option.some.injEq] at h <;> rw [← h] <;> omega

theorem munchComment_rest_length_le {text rest : List Char}
    (h : (munchComment text).rest? = some rest) : rest.length ≤ text.length := by
  have run := splitRun_rest_length_le (· != '\x7d') text
  unfold munchComment at h
  split at h
  · simp [Munch.rest?] at h
  · next inside brace tail found =>
    rw [found] at run
    simp only [Munch.rest?, Option.some.injEq] at h
    simp only [List.length_cons] at run
    rw [← h]
    omega

/-- A step leaves a text that is shorter than the one it was given. -/
theorem munch_rest_length_le {c : Char} {text rest : List Char}
    (h : (munch (c :: text)).rest? = some rest) : rest.length ≤ text.length := by
  unfold munch at h
  simp only at h
  split at h
  · simp_all [Munch.rest?]
  split at h
  · simp_all [Munch.rest?]
  split at h
  · exact munchComment_rest_length_le h
  split at h
  · next digit => exact munchNumber_rest_length_le digit h
  split at h
  · next letter => exact munchWord_rest_length_le letter h
  split at h
  · split at h
    · next d tail found =>
      have shorter := realTail?_rest_length_lt found
      simp only [Munch.rest?, Option.some.injEq, List.length_cons] at h shorter
      rw [← h]
      omega
    · simp_all [Munch.rest?]
  · split at h
    · next s tail found =>
      have shorter := Symbol.split?_rest_length_lt found
      simp only [Munch.rest?, Option.some.injEq, List.length_cons] at h shorter
      rw [← h]
      omega
    · simp [Munch.rest?] at h

/-- The tokens of a text whose first character is on the given line. -/
def tokensFrom (line : Nat) : List Char → Except SourceError (List Lexeme)
  | [] => .ok []
  | c :: text =>
    match found : munch (c :: text) with
    | .token t rest =>
      have : rest.length ≤ text.length := munch_rest_length_le (by rw [found]; rfl)
      (tokensFrom line rest).map (⟨t, line⟩ :: ·)
    | .pass newlines rest =>
      have : rest.length ≤ text.length := munch_rest_length_le (by rw [found]; rfl)
      tokensFrom (line + newlines) rest
    | .fault f => .error ⟨f, line⟩
  termination_by text => text.length
  decreasing_by all_goals simp only [List.length_cons]; omega

def tokenize (source : String) : Except SourceError (List Lexeme) :=
  tokensFrom 1 source.toList

@[simp] theorem tokensFrom_nil (line : Nat) : tokensFrom line [] = .ok [] := by
  rw [tokensFrom]

theorem tokensFrom_of_token {line : Nat} {c : Char} {text rest : List Char} {t : Token}
    (h : munch (c :: text) = .token t rest) :
    tokensFrom line (c :: text) = (tokensFrom line rest).map (⟨t, line⟩ :: ·) := by
  rw [tokensFrom]
  split <;> simp_all

theorem tokensFrom_of_pass {line newlines : Nat} {c : Char} {text rest : List Char}
    (h : munch (c :: text) = .pass newlines rest) :
    tokensFrom line (c :: text) = tokensFrom (line + newlines) rest := by
  rw [tokensFrom]
  split <;> simp_all

theorem tokensFrom_of_fault {line : Nat} {c : Char} {text : List Char} {f : SourceFault}
    (h : munch (c :: text) = .fault f) : tokensFrom line (c :: text) = .error ⟨f, line⟩ := by
  rw [tokensFrom]
  split <;> simp_all

end GotoLang
