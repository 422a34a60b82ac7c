import Mathlib.Data.Nat.Digits.Defs
import GotoLang.Proofs.SpelledText

set_option autoImplicit false

namespace GotoLang

/-- The value of a digit is its place among the digits of base sixteen, in either letter case. -/
def digitPlace (c : Char) : Nat :=
  "0123456789abcdef".toList.idxOf c.toLower

/-- The number that digits make in a base, most significant digit first. -/
def placeValue (base : Nat) (digits : List Char) : Nat :=
  Nat.ofDigits base (digits.reverse.map digitPlace)

theorem isHexDigit_of_isDigit {c : Char} (digit : c.isDigit = true) : isHexDigit c = true := by
  rw [isHexDigit, digit, Bool.true_or]

theorem isHexDigit_of_isBinaryDigit {c : Char} (binary : isBinaryDigit c = true) :
    isHexDigit c = true := by
  simp only [isBinaryDigit, Bool.or_eq_true, beq_iff_eq] at binary
  rcases binary with rfl | rfl <;> decide

theorem toNat_lt_of_isHexDigit {c : Char} (hex : isHexDigit c = true) : c.toNat < 128 := by
  have range : c.val ≤ 'z'.val := by
    rcases Bool.or_eq_true_iff.1 hex with digit | lower
    · exact UInt32.le_trans (range_of_isDigit digit).2 (by decide)
    · simp only [Bool.and_eq_true, decide_eq_true_eq] at lower
      have bounds : 'a'.val ≤ c.toLower.val ∧ c.toLower.val ≤ 'z'.val :=
        ⟨lower.1, UInt32.le_trans lower.2 (by decide)⟩
      have letter : c.toLower.isAlpha = true :=
        Bool.or_eq_true_iff.2 (.inr (Bool.and_eq_true_iff.2
          ⟨decide_eq_true bounds.1, decide_eq_true bounds.2⟩))
      exact (range_of_isAlpha (isAlpha_of_toLower letter)).2
  exact Nat.lt_of_le_of_lt (UInt32.le_iff_toNat_le.1 range) (by decide)

theorem digitValue_eq_digitPlace {c : Char} (hex : isHexDigit c = true) :
    digitValue c = digitPlace c := by
  have each : ∀ n < 128, isHexDigit (Char.ofNat n) = true →
      digitValue (Char.ofNat n) = digitPlace (Char.ofNat n) := by decide
  have same := each c.toNat (toNat_lt_of_isHexDigit hex)
  rw [Char.ofNat_toNat] at same
  exact same hex

theorem ofDigits_concat (base : Nat) (digits : List Char) (c : Char) :
    ofDigits base (digits ++ [c]) = ofDigits base digits * base + digitValue c := by
  rw [ofDigits, List.foldl_append]
  rfl

theorem placeValue_concat (base : Nat) (digits : List Char) (c : Char) :
    placeValue base (digits ++ [c]) = digitPlace c + base * placeValue base digits := by
  rw [placeValue, List.reverse_append, List.reverse_singleton, List.singleton_append,
    List.map_cons, Nat.ofDigits_cons]
  rfl

/-- Reading digits from left to right gives the sum of their values at their places. -/
theorem ofDigits_eq_placeValue (base : Nat) {digits : List Char}
    (inside : digits.all isHexDigit = true) : ofDigits base digits = placeValue base digits := by
  induction digits using List.reverseRecOn with
  | nil => rfl
  | append_singleton digits c ih =>
    rw [List.all_append, List.all_cons, List.all_nil, Bool.and_true, Bool.and_eq_true] at inside
    rw [ofDigits_concat, placeValue_concat, ih inside.1, digitValue_eq_digitPlace inside.2,
      Nat.mul_comm, Nat.add_comm]

/-- Digits make no smaller number in a larger base. -/
theorem placeValue_mono {base larger : Nat} (le : base ≤ larger) (digits : List Char) :
    placeValue base digits ≤ placeValue larger digits :=
  Nat.ofDigits_monotone _ le

theorem Token.ofNat?_of_lt {value : Nat} (small : value < 2 ^ 63) :
    ∃ n : Int64, n.toInt = value ∧ ofNat? value = some (.integer n) := by
  cases found : int64? value with
  | some n => exact ⟨n, int64?_eq_some_iff.1 found, congrArg (Option.map _) found⟩
  | none =>
    rw [int64?_eq_none_iff, Int64.toInt_minValue, Int64.toInt_maxValue] at found
    omega

theorem Token.ofNat?_of_le {value : Nat} (large : 2 ^ 63 ≤ value) : ofNat? value = none := by
  have found : int64? value = none := by
    rw [int64?_eq_none_iff, Int64.toInt_maxValue]
    omega
  rw [ofNat?, found]
  rfl

theorem Binary64.ofDecimal_of_whole {d : Decimal} (nonzero : d.digits ≠ 0) (whole : 0 ≤ d.exponent)
    (small : d.exponent < 310) (negative : Bool) :
    ofDecimal negative d =
      nearest negative (d.digits * Nat.pow 10 d.exponent.toNat * one) 1 := by
  have inRange : ¬ d.exponent + (d.digits.log2 / 3 + 1 : Nat) < -330 := by omega
  rw [ofDecimal, if_neg nonzero, if_neg (Int.not_le.2 small), if_neg inRange, if_pos whole]

/-- A decimal number without point and exponent is read as the nearest real. -/
theorem Binary64.ofDecimal_digits {digits : List Char} (positive : 0 < ofDigits 10 digits) :
    ofDecimal false (.ofParts digits [] 0) = ofInt (ofDigits 10 digits) := by
  have whole : Decimal.ofParts digits [] 0 = ⟨ofDigits 10 digits, 0⟩ := by
    rw [Decimal.ofParts, List.append_nil]
    rfl
  have read : ofDecimal false ⟨ofDigits 10 digits, 0⟩ =
      nearest false (ofDigits 10 digits * one) 1 := by
    rw [ofDecimal_of_whole (Nat.ne_of_gt positive) (Int.le_refl 0) (show (0 : Int) < 310 by decide)]
    exact congrArg (nearest false · 1) (congrArg (· * one) (Nat.mul_one _))
  have units : ((ofDigits 10 digits : Int) * one).natAbs = ofDigits 10 digits * one := by
    rw [Int.natAbs_mul, Int.natAbs_natCast, Int.natAbs_natCast]
  have sign : decide ((ofDigits 10 digits : Int) * one < 0) = false := by
    rw [decide_eq_false_iff_not, Int.not_lt]
    exact Int.mul_nonneg (Int.natCast_nonneg _) (Int.natCast_nonneg _)
  rw [whole, read, ofInt_eq, ofUnits, sign, units]

/-- A run of digits that is meant in base eight: a zero, and behind it at least one digit and none
above seven. -/
def IsOctalRun (digits : List Char) : Prop :=
  1 < digits.length ∧ digits.head? = some '0' ∧ digits.all isOctalDigit = true

/-- An integer literal with its base and its digits. -/
inductive IntegerLiteral : Nat → List Char → List Char → Prop
  | radix {mark : Char} {base : Nat} {inBase : Char → Bool} {digits : List Char}
      (marks : RadixMark mark base inBase) (filled : digits ≠ [])
      (inside : digits.all inBase = true) : IntegerLiteral base digits ('0' :: mark :: digits)
  | octal {digits : List Char} (octal : IsOctalRun digits) : IntegerLiteral 8 digits digits
  | decimal {digits : List Char} (filled : digits ≠ []) (inside : digits.all Char.isDigit = true)
      (plain : ¬ IsOctalRun digits) : IntegerLiteral 10 digits digits

theorem all_isHexDigit {inClass : Char → Bool} {digits : List Char}
    (inside : digits.all inClass = true)
    (hex : ∀ c, inClass c = true → isHexDigit c = true) : digits.all isHexDigit = true :=
  List.all_eq_true.2 fun c member => hex c (List.all_eq_true.1 inside c member)

theorem RadixMark.isHexDigit {mark : Char} {base : Nat} {inBase : Char → Bool}
    (marks : RadixMark mark base inBase) (c : Char) (inside : inBase c = true) :
    GotoLang.isHexDigit c = true := by
  cases marks with
  | hex => exact inside
  | binary => exact isHexDigit_of_isBinaryDigit inside

theorem RadixMark.base_eq {mark : Char} {base : Nat} {inBase : Char → Bool}
    (marks : RadixMark mark base inBase) : base = 16 ∨ base = 2 := by
  cases marks with
  | hex => exact .inl rfl
  | binary => exact .inr rfl

theorem IsOctalRun.all_isDigit {digits : List Char} (octal : IsOctalRun digits) :
    digits.all Char.isDigit = true :=
  List.all_eq_true.2 fun c member =>
    isDigit_of_isOctalDigit (List.all_eq_true.1 octal.2.2 c member)

theorem Token.ofDecimalRun_of_not_octal {digits : List Char} (plain : ¬ IsOctalRun digits) :
    ofDecimalRun digits = (ofNat? (ofDigits 10 digits)).getD
      (.real (.ofDecimal false (.ofParts digits [] 0))) := by
  unfold IsOctalRun at plain
  simp only [ofDecimalRun, if_neg plain]
  rfl

theorem Token.ofDecimalRun_of_octal {digits : List Char} (octal : IsOctalRun digits) :
    ofDecimalRun digits = (ofNat? (ofDigits 8 digits) <|> ofNat? (ofDigits 10 digits)).getD
      (.real (.ofDecimal false (.ofParts digits [] 0))) := by
  unfold IsOctalRun at octal
  simp only [ofDecimalRun, if_pos octal]

theorem tokenize_of_munch {text : List Char} {t : Token} (found : munch text = .token t []) :
    tokenize (String.ofList text) = .ok [⟨t, 1⟩] := by
  rw [tokenize, String.toList_ofList, tokensFrom_of_munch found, tokensFrom_nil]
  rfl

theorem atGap_nil : AtGap [] := by
  rintro _ ⟨⟩

theorem tokenize_run {digits : List Char} (filled : digits ≠ [])
    (inside : digits.all Char.isDigit = true) :
    tokenize (String.ofList digits) = .ok [⟨.ofDecimalRun digits, 1⟩] := by
  apply tokenize_of_munch
  have found : munch (digits ++ []) = munchNumber (digits ++ []) := munch_digits filled inside
  rwa [munchNumber_run inside atGap_nil, List.append_nil] at found

/-- A number that fits in 64 bits is an integer in the base of its literal. -/
theorem tokenize_literal_of_lt {base : Nat} {digits text : List Char}
    (literal : IntegerLiteral base digits text) (small : placeValue base digits < 2 ^ 63) :
    ∃ n : Int64, n.toInt = placeValue base digits ∧
      tokenize (String.ofList text) = .ok [⟨.integer n, 1⟩] := by
  obtain ⟨n, value, fits⟩ := Token.ofNat?_of_lt small
  refine ⟨n, value, ?_⟩
  cases literal with
  | @radix mark _ _ _ marks filled inside =>
    apply tokenize_of_munch
    have found := marks.munch filled inside atGap_nil
    rw [List.append_nil, ofDigits_eq_placeValue base (all_isHexDigit inside marks.isHexDigit),
      fits] at found
    exact found
  | octal octal =>
    have hex := all_isHexDigit octal.all_isDigit fun _ => isHexDigit_of_isDigit
    have filled : digits ≠ [] := List.length_pos_iff.1 (Nat.lt_of_succ_lt octal.1)
    rw [tokenize_run filled octal.all_isDigit, Token.ofDecimalRun_of_octal octal,
      ofDigits_eq_placeValue 8 hex, fits]
    rfl
  | decimal filled inside plain =>
    have hex := all_isHexDigit inside fun _ => isHexDigit_of_isDigit
    rw [tokenize_run filled inside, Token.ofDecimalRun_of_not_octal plain,
      ofDigits_eq_placeValue 10 hex, fits]
    rfl

/-- A number that does not fit is a fault in base sixteen or two. -/
theorem tokenize_radix_of_le {mark : Char} {base : Nat} {inBase : Char → Bool} {digits : List Char}
    (marks : RadixMark mark base inBase) (filled : digits ≠ []) (inside : digits.all inBase = true)
    (large : 2 ^ 63 ≤ placeValue base digits) :
    tokenize (String.ofList ('0' :: mark :: digits)) =
      .error ⟨.invalidNumber (String.ofList ('0' :: mark :: digits)), 1⟩ := by
  have found := marks.munch filled inside atGap_nil
  rw [List.append_nil, ofDigits_eq_placeValue base (all_isHexDigit inside marks.isHexDigit),
    Token.ofNat?_of_le large] at found
  rw [tokenize, String.toList_ofList, tokensFrom_of_fault found]

/-- A run of digits that does not fit in its base is a real in base ten. -/
theorem tokenize_run_of_le {digits : List Char} (filled : digits ≠ [])
    (inside : digits.all Char.isDigit = true)
    (large : 2 ^ 63 ≤ placeValue 10 digits)
    (largeOctal : IsOctalRun digits → 2 ^ 63 ≤ placeValue 8 digits) :
    tokenize (String.ofList digits) = .ok [⟨.real (.ofInt (placeValue 10 digits)), 1⟩] := by
  have hex := all_isHexDigit inside fun _ => isHexDigit_of_isDigit
  have value := ofDigits_eq_placeValue 10 hex
  have positive : 0 < ofDigits 10 digits := by omega
  have real := Binary64.ofDecimal_digits positive
  rw [value] at real
  rw [tokenize_run filled inside, ← real]
  by_cases octal : IsOctalRun digits
  · rw [Token.ofDecimalRun_of_octal octal, value, ofDigits_eq_placeValue 8 hex,
      Token.ofNat?_of_le (largeOctal octal), Token.ofNat?_of_le large]
    rfl
  · rw [Token.ofDecimalRun_of_not_octal octal, value, Token.ofNat?_of_le large]
    rfl

/-- A literal alone is one integer, of the value that its digits have in its base, if that fits in
64 bits. Otherwise it is a fault with the whole literal in base sixteen or two, and one real in base
ten or eight, of the value that its digits have in base ten. -/
theorem tokenize_integer_literal {base : Nat} {digits text : List Char}
    (literal : IntegerLiteral base digits text) :
    (placeValue base digits < 2 ^ 63 → ∃ n : Int64, n.toInt = placeValue base digits ∧
      tokenize (String.ofList text) = .ok [⟨.integer n, 1⟩]) ∧
    (2 ^ 63 ≤ placeValue base digits → base = 16 ∨ base = 2 →
      tokenize (String.ofList text) = .error ⟨.invalidNumber (String.ofList text), 1⟩) ∧
    (2 ^ 63 ≤ placeValue base digits → base = 10 ∨ base = 8 →
      tokenize (String.ofList text) = .ok [⟨.real (.ofInt (placeValue 10 digits)), 1⟩]) := by
  refine ⟨tokenize_literal_of_lt literal, fun large coded => ?_, fun large counted => ?_⟩
  · cases literal with
    | radix marks filled inside => exact tokenize_radix_of_le marks filled inside large
    | octal | decimal => omega
  · cases literal with
    | radix marks => have bases := marks.base_eq; omega
    | octal octal =>
      have filled : digits ≠ [] := List.length_pos_iff.1 (Nat.lt_of_succ_lt octal.1)
      have largeInTen := Nat.le_trans large (placeValue_mono (show 8 ≤ 10 by decide) digits)
      exact tokenize_run_of_le filled octal.all_isDigit largeInTen fun _ => large
    | decimal filled inside plain =>
      exact tokenize_run_of_le filled inside large fun octal => absurd octal plain

/-- The least octal literal that does not fit is read in base ten. -/
theorem octal_literal_read_in_base_ten :
    ∃ digits, IntegerLiteral 8 digits digits ∧ placeValue 8 digits = 2 ^ 63 ∧
      tokenize "01000000000000000000000" = .ok [⟨.real (.ofInt (placeValue 10 digits)), 1⟩] ∧
      Binary64.ofInt (placeValue 10 digits) ≠ Binary64.ofInt (placeValue 8 digits) := by
  have octal : IsOctalRun "01000000000000000000000".toList := by
    unfold IsOctalRun
    decide
  have literal : IntegerLiteral 8 _ _ := .octal octal
  have value : placeValue 8 "01000000000000000000000".toList = 2 ^ 63 := by decide
  refine ⟨_, literal, value, ?_, by decide +kernel⟩
  exact (tokenize_integer_literal literal).2.2 (Nat.le_of_eq value.symm) (.inr rfl)

end GotoLang
