import GotoLang.Proofs.Comparison
import GotoLang.Proofs.ExactArithmetic

set_option autoImplicit false

namespace GotoLang

/-- The value is a zero: the integer, or the real of either sign. -/
def Value.IsNought (v : Value) : Prop :=
  v = .integer 0 ∨ v = .real (.zero false) ∨ v = .real (.zero true)

namespace BinaryOperator

/-- The fault that applies to an operator and its operands. Only numbers are calculated and ordered;
a remainder is one of integers; what is divided by a zero has no quotient and no remainder; and the
exact result on integers has to fit, which for a remainder is the quotient. -/
def Faults (op : BinaryOperator) (left right : Value) : RuntimeFault → Prop
  | .type fault =>
    op ≠ equal ∧ op ≠ notEqual ∧ ¬ (left.isNumber = true ∧ right.isNumber = true) ∧
      fault = .operands op left.kind right.kind
  | .moduloType =>
    op = mod ∧ left.isNumber = true ∧ right.isNumber = true ∧
      (left.kind = .real ∨ right.kind = .real)
  | .divisionByZero =>
    left.isNumber = true ∧ right.IsNought ∧
      (op = div ∨ op = mod ∧ left.kind = .integer ∧ right.kind = .integer)
  | .overflow =>
    ∃ a b : Int64, left = .integer a ∧ right = .integer b ∧ op.level ≠ .relational ∧
      (op = div ∨ op = mod → b ≠ 0) ∧
      ¬ FitsInt64 ((if op = mod then div else op).exact a.toInt b.toInt)
  | _ => False

def resultKind (op : BinaryOperator) (left right : Value) : Kind :=
  if op.level = .relational then .boolean
  else if left.kind = .integer ∧ right.kind = .integer then .integer
  else .real

end BinaryOperator

namespace Value

variable {v : Value}

theorem isNought_of_isZero (zero : v.isZero = true) : v.IsNought := by
  cases v with
  | integer n => exact .inl (congrArg integer (beq_iff_eq.1 zero))
  | real r =>
    cases r with
    | finite negative units bounded significant =>
      have none : units = 0 := beq_iff_eq.1 zero
      subst none
      cases negative with
      | false => exact .inr (.inl rfl)
      | true => exact .inr (.inr rfl)
    | nan | infinite => cases zero
  | text | boolean | vector => cases zero

theorem IsNought.isNumber (nought : v.IsNought) : v.isNumber = true := by
  rcases nought with rfl | rfl | rfl <;> rfl

theorem isNought_iff_isZero : v.IsNought ↔ v.isZero = true := by
  constructor
  · rintro (rfl | rfl | rfl) <;> rfl
  · exact isNought_of_isZero

/-- The zeros are the numbers that are zero as reals. -/
theorem isNought_iff_isZero_real {r : Binary64} (found : v.number? = some r) :
    v.IsNought ↔ r.isZero = true := by
  rw [isNought_iff_isZero, isZero_eq_any_number?, found, Option.any_some]

theorem kind_eq_real (number : v.isNumber = true) (other : v.kind ≠ .integer) : v.kind = .real := by
  cases v with
  | integer => exact absurd rfl other
  | real => rfl
  | text | boolean | vector => cases number

theorem eq_integer_of_kind (whole : v.kind = .integer) : ∃ n, v = .integer n := by
  cases v with
  | integer n => exact ⟨n, rfl⟩
  | real | text | boolean | vector => cases whole

end Value

namespace BinaryOperator

variable {op : BinaryOperator} {left right : Value} {fault other : RuntimeFault}

/-- On two integers the fault is the one of the exact numbers. -/
theorem exactFault?_eq_some_iff (arithmetic : op.level ≠ .relational) (a b : Int64) :
    op.exactFault? a.toInt b.toInt = some fault ↔
      op.Faults (.integer a) (.integer b) fault := by
  have zero : b.toInt = 0 ↔ b = 0 := Int64.toInt_inj (y := 0)
  have nought : (Value.integer b).IsNought ↔ b = 0 := by simp [Value.IsNought]
  cases op with
  | add | sub | mul =>
    cases fault <;> simp [Faults, exactFault?, overflow?, Value.isNumber, Value.kind, level]
  | div | mod =>
    by_cases none : b = 0
    · cases fault <;>
        simp [Faults, exactFault?, Value.isNumber, Value.kind, level, Value.IsNought, none]
    · by_cases fits : FitsInt64 (div.exact a.toInt b.toInt) <;> cases fault <;>
        simp [Faults, exactFault?, overflow?, Value.isNumber, Value.kind, level, zero, nought, none,
          fits]
  | equal | notEqual | less | lessEqual | greater | greaterEqual => exact absurd rfl arithmetic

/-- Two integers without a fault have the exact result. -/
theorem integers_exact (arithmetic : op.level ≠ .relational) {a b : Int64}
    (none : op.exactFault? a.toInt b.toInt = none) :
    ∃ v : Int64, v.toInt = op.exact a.toInt b.toInt ∧
      op.apply (.integer a) (.integer b) = .ok (.integer v) := by
  have ends := EndsExactly.apply arithmetic a b 0
  rw [none] at ends
  cases result : op.apply (.integer a) (.integer b) with
  | ok v =>
    rw [result] at ends
    cases ends with
    | @value v same => exact ⟨v, same, rfl⟩
  | error fault =>
    rw [result] at ends
    cases ends

/-- The fault that applies to two integers is the one that an arithmetic operator has. -/
theorem integers_fault (arithmetic : op.level ≠ .relational) {a b : Int64}
    (applies : op.Faults (.integer a) (.integer b) fault) :
    op.apply (.integer a) (.integer b) = .error fault := by
  have ends := EndsExactly.apply arithmetic a b 0
  rw [(exactFault?_eq_some_iff arithmetic a b).2 applies] at ends
  cases result : op.apply (.integer a) (.integer b) with
  | ok v =>
    rw [result] at ends
    cases ends
  | error found =>
    rw [result] at ends
    cases ends
    rfl

/-- An arithmetic operator on two integers has an integer or the fault that applies. -/
theorem integers_yield (arithmetic : op.level ≠ .relational) (a b : Int64) :
    Yields (fun v => v.kind = .integer) (op.Faults (.integer a) (.integer b))
      (op.apply (.integer a) (.integer b)) := by
  cases found : op.exactFault? a.toInt b.toInt with
  | none =>
    obtain ⟨v, -, result⟩ := integers_exact arithmetic found
    rw [result]
    rfl
  | some fault =>
    have applies := (exactFault?_eq_some_iff arithmetic a b).1 found
    rw [integers_fault arithmetic applies]
    exact applies

/-- Calculation with numbers that are not both integers. -/
theorem arithmetic_of_numbers (exact : Int → Int → Int) (rounded : Binary64 → Binary64 → Binary64)
    (numberLeft : left.isNumber = true) (numberRight : right.isNumber = true)
    (mixed : ¬ (left.kind = .integer ∧ right.kind = .integer)) :
    ∃ r, arithmetic op exact rounded left right = .ok (.real r) := by
  obtain ⟨a, foundLeft⟩ := Value.number?_of_isNumber numberLeft
  obtain ⟨b, foundRight⟩ := Value.number?_of_isNumber numberRight
  refine ⟨rounded a b, ?_⟩
  unfold arithmetic
  split
  · exact absurd ⟨rfl, rfl⟩ mixed
  · rw [reals_of_numbers op foundLeft foundRight]
    rfl

/-- Operators of which only numbers are operands refuse all others. -/
theorem apply_of_not_numbers (noEqual : op ≠ equal) (noNotEqual : op ≠ notEqual)
    (other : ¬ (left.isNumber = true ∧ right.isNumber = true)) :
    op.apply left right = .error (.type (.operands op left.kind right.kind)) := by
  cases op with
  | equal => exact absurd rfl noEqual
  | notEqual => exact absurd rfl noNotEqual
  | add | sub | mul | div | mod | less | lessEqual | greater | greaterEqual =>
    cases left <;> cases right <;> first | exact absurd ⟨rfl, rfl⟩ other | rfl

theorem modulo_of_numbers (numberLeft : left.isNumber = true) (numberRight : right.isNumber = true)
    (mixed : ¬ (left.kind = .integer ∧ right.kind = .integer)) :
    mod.apply left right = .error .moduloType := by
  change modulo left right = _
  unfold modulo
  split
  · exact absurd ⟨rfl, rfl⟩ mixed
  · rw [numberLeft, numberRight]
    rfl

theorem divide_of_nought (number : left.isNumber = true) (nought : right.IsNought) :
    div.apply left right = .error .divisionByZero := by
  obtain ⟨a, foundLeft⟩ := Value.number?_of_isNumber number
  obtain ⟨b, foundRight⟩ := Value.number?_of_isNumber nought.isNumber
  rw [apply, divide_of_numbers foundLeft foundRight,
    if_pos ((Value.isNought_iff_isZero_real foundRight).1 nought)]

/-- The fault that applies is the one that the operator has. -/
theorem Faults.apply_eq (applies : op.Faults left right fault) :
    op.apply left right = .error fault := by
  cases fault with
  | type =>
    obtain ⟨noEqual, noNotEqual, other, rfl⟩ := applies
    exact apply_of_not_numbers noEqual noNotEqual other
  | moduloType =>
    obtain ⟨rfl, numberLeft, numberRight, real⟩ := applies
    apply modulo_of_numbers numberLeft numberRight
    rintro ⟨wholeLeft, wholeRight⟩
    simp [wholeLeft, wholeRight] at real
  | divisionByZero =>
    obtain ⟨number, nought, rfl | ⟨rfl, wholeLeft, wholeRight⟩⟩ := applies
    · exact divide_of_nought number nought
    · obtain ⟨a, rfl⟩ := Value.eq_integer_of_kind wholeLeft
      obtain ⟨b, rfl⟩ := Value.eq_integer_of_kind wholeRight
      exact integers_fault (by decide) ⟨rfl, nought, .inr ⟨rfl, rfl, rfl⟩⟩
  | overflow =>
    obtain ⟨a, b, rfl, rfl, arithmetic, more⟩ := applies
    exact integers_fault arithmetic ⟨a, b, rfl, rfl, arithmetic, more⟩
  | duplicateLabel | undefinedLabel | unknownVariable | indexOutOfBounds | size | inputExhausted
  | console => cases applies

/-- An arithmetic operator on numbers of which one is real. -/
theorem mixed_yields (arithmetic : op.level ≠ .relational) (numberLeft : left.isNumber = true)
    (numberRight : right.isNumber = true)
    (mixed : ¬ (left.kind = .integer ∧ right.kind = .integer)) :
    Yields (fun v => v.kind = .real) (op.Faults left right) (op.apply left right) := by
  cases op with
  | add | sub | mul =>
    obtain ⟨r, result⟩ := arithmetic_of_numbers _ _ numberLeft numberRight mixed
    rw [apply, result]
    rfl
  | div =>
    by_cases nought : right.IsNought
    · rw [divide_of_nought numberLeft nought]
      exact ⟨numberLeft, nought, .inl rfl⟩
    · obtain ⟨r, result⟩ := arithmetic_of_numbers _ _ numberLeft numberRight mixed
      obtain ⟨a, foundLeft⟩ := Value.number?_of_isNumber numberLeft
      obtain ⟨b, foundRight⟩ := Value.number?_of_isNumber numberRight
      rw [Value.isNought_iff_isZero_real foundRight] at nought
      rw [apply, divide_of_numbers foundLeft foundRight, if_neg nought, result]
      rfl
  | mod =>
    rw [modulo_of_numbers numberLeft numberRight mixed]
    refine ⟨rfl, numberLeft, numberRight, ?_⟩
    by_cases whole : left.kind = .integer
    · exact .inr (Value.kind_eq_real numberRight fun other => mixed ⟨whole, other⟩)
    · exact .inl (Value.kind_eq_real numberLeft whole)
  | equal | notEqual | less | lessEqual | greater | greaterEqual => exact absurd rfl arithmetic

/-- An operator has a value of the kind that belongs to it, or a fault that applies. -/
theorem apply_yields (op : BinaryOperator) (left right : Value) :
    Yields (fun v => v.kind = op.resultKind left right) (op.Faults left right)
      (op.apply left right) := by
  unfold resultKind
  by_cases equality : op = equal ∨ op = notEqual
  · rcases equality with rfl | rfl <;> exact rfl
  by_cases numbers : left.isNumber = true ∧ right.isNumber = true
  · obtain ⟨numberLeft, numberRight⟩ := numbers
    by_cases relational : op.level = .relational
    · obtain ⟨truth, result⟩ := decided_of_numbers numberLeft numberRight relational
      rw [result, if_pos relational]
      rfl
    · rw [if_neg relational]
      by_cases whole : left.kind = .integer ∧ right.kind = .integer
      · obtain ⟨a, rfl⟩ := Value.eq_integer_of_kind whole.1
        obtain ⟨b, rfl⟩ := Value.eq_integer_of_kind whole.2
        rw [if_pos whole]
        exact integers_yield relational a b
      · rw [if_neg whole]
        exact mixed_yields relational numberLeft numberRight whole
  · rw [not_or] at equality
    rw [apply_of_not_numbers equality.1 equality.2 numbers]
    exact ⟨equality.1, equality.2, numbers, rfl⟩

theorem apply_eq_error_iff (op : BinaryOperator) (left right : Value) (fault : RuntimeFault) :
    op.apply left right = .error fault ↔ op.Faults left right fault := by
  constructor
  · intro failed
    have yields := apply_yields op left right
    rwa [failed] at yields
  · exact Faults.apply_eq

/-- An operator has a fault exactly if that fault applies to its operands, on the line of the
operator. If none applies it has a value, of the kind that belongs to the operands. No two faults
apply. -/
theorem operator_faults_exact (op : BinaryOperator) (left right : Value) (line : Nat) :
    (∀ e, onLine line (op.apply left right) = .error e ↔
      e.line = line ∧ op.Faults left right e.fault) ∧
    ((∀ fault, ¬ op.Faults left right fault) →
      ∃ v, onLine line (op.apply left right) = .ok v ∧ v.kind = op.resultKind left right) ∧
    ∀ fault other, op.Faults left right fault → op.Faults left right other → fault = other := by
  have fails := apply_eq_error_iff op left right
  have yields := apply_yields op left right
  cases result : op.apply left right with
  | ok v =>
    rw [result] at fails yields
    have none (fault : RuntimeFault) : ¬ op.Faults left right fault := by simp [← fails fault]
    exact ⟨fun e => ⟨nofun, fun both => absurd both.2 (none _)⟩, fun _ => ⟨v, rfl, yields⟩,
      fun fault _ applies _ => absurd applies (none fault)⟩
  | error found =>
    rw [result] at fails
    have only (fault : RuntimeFault) : op.Faults left right fault ↔ found = fault := by
      simp [← fails fault]
    refine ⟨fun e => ?_, fun noFault => absurd ((only found).2 rfl) (noFault found), ?_⟩
    · rw [only, onLine, Except.error.injEq]
      constructor
      · rintro rfl
        exact ⟨rfl, rfl⟩
      · rintro ⟨rfl, rfl⟩
        rfl
    · intro fault other applies applies'
      exact ((only fault).1 applies).symm.trans ((only other).1 applies')

/-- A real zero divides no number, but there is no remainder of a real in the first place, and it
may be ordered. -/
theorem operator_faults_exact_at_real_zero :
    ∃ n zero : Value, n = .integer 7 ∧ zero = .real (.zero true) ∧
      onLine 3 (div.apply n zero) = .error ⟨.divisionByZero, 3⟩ ∧
      onLine 3 (mod.apply n zero) = .error ⟨.moduloType, 3⟩ ∧
      (∀ fault, ¬ less.Faults n zero fault) ∧
      (∃ v, onLine 3 (less.apply n zero) = .ok v ∧ v.kind = .boolean) ∧
      mod.Faults n zero .moduloType ∧
      ∀ other, mod.Faults n zero other → .moduloType = other := by
  let n : Value := .integer 7
  let zero : Value := .real (.zero true)
  have none (fault : RuntimeFault) : ¬ less.Faults n zero fault := by
    cases fault <;> simp [Faults, n, zero, level, Value.isNumber]
  have real : mod.Faults n zero .moduloType := ⟨rfl, rfl, rfl, .inr rfl⟩
  have divides : div.Faults n zero .divisionByZero := ⟨rfl, .inr (.inr rfl), .inl rfl⟩
  exact ⟨n, zero, rfl, rfl, ((operator_faults_exact div n zero 3).1 _).2 ⟨rfl, divides⟩,
    ((operator_faults_exact mod n zero 3).1 _).2 ⟨rfl, real⟩, none,
    (operator_faults_exact less n zero 3).2.1 none, real,
    fun other => (operator_faults_exact mod n zero 3).2.2 _ other real⟩

/-- A quotient fits, apart from that of the least integer and minus one. -/
theorem fits_tdiv {a b : Int} (fits : FitsInt64 a)
    (corner : ¬ (a = Int64.minValue.toInt ∧ b = -1)) : FitsInt64 (a.tdiv b) := by
  have size : (a.tdiv b).natAbs = a.natAbs / b.natAbs := Int.natAbs_tdiv a b
  unfold FitsInt64 at *
  rw [Int64.toInt_minValue, Int64.toInt_maxValue] at *
  rcases (by omega : b = -1 ∨ b = 0 ∨ b = 1 ∨ 2 ≤ b.natAbs) with rfl | rfl | rfl | large
  · have opposite : a.tdiv (-1) = -a := by rw [Int.tdiv_neg, Int.tdiv_one]
    omega
  · rw [Int.tdiv_zero]
    omega
  · rw [Int.tdiv_one]
    omega
  · have half : a.natAbs / b.natAbs ≤ a.natAbs / 2 := Nat.div_le_div_left large (by decide)
    omega

/-- An integer is a quotient times the divisor and a remainder, which is nearer to zero than the
divisor and has the sign of the dividend. Only the least integer has no quotient by minus one that
fits, and for that reason has no remainder either. -/
theorem remainder_completes_quotient (a : Int64) {b : Int64} (nonzero : b ≠ 0) :
    if a = Int64.minValue ∧ b = -1 then
      div.apply (.integer a) (.integer b) = .error .overflow ∧
        mod.apply (.integer a) (.integer b) = .error .overflow
    else
      ∃ q r : Int64, div.apply (.integer a) (.integer b) = .ok (.integer q) ∧
        mod.apply (.integer a) (.integer b) = .ok (.integer r) ∧
        a.toInt = b.toInt * q.toInt + r.toInt ∧ r.toInt.natAbs < b.toInt.natAbs ∧
        (r = 0 ∨ r.toInt.sign = a.toInt.sign) := by
  have divisor : b.toInt ≠ 0 := fun zero => nonzero (Int64.toInt_inj.1 zero)
  split
  · rename_i corner
    obtain ⟨rfl, rfl⟩ := corner
    have divides : div.Faults (.integer Int64.minValue) (.integer (-1)) .overflow :=
      (exactFault?_eq_some_iff (by decide) _ _).1 (by decide)
    exact ⟨integers_fault (by decide) divides, rfl⟩
  · rename_i noCorner
    have fits : FitsInt64 (div.exact a.toInt b.toInt) := by
      rw [exact_div]
      refine fits_tdiv (fits_toInt a) fun corner => noCorner ?_
      exact ⟨Int64.toInt_inj.1 corner.1, Int64.toInt_inj.1 corner.2⟩
    have none : div.exactFault? a.toInt b.toInt = none := by
      rw [exactFault?, if_neg divisor, overflow?, if_pos fits]
    obtain ⟨q, quotient, divided⟩ := integers_exact (by decide) none
    obtain ⟨r, remainder, left⟩ := integers_exact (show mod.level ≠ .relational by decide) none
    rw [exact_div] at quotient
    rw [exact_mod] at remainder
    refine ⟨q, r, divided, left, ?_, ?_, ?_⟩
    · rw [quotient, remainder, Int.mul_tdiv_add_tmod]
    · rw [remainder, Int.natAbs_tmod]
      exact Nat.mod_lt _ (Int.natAbs_pos.2 divisor)
    · rw [remainder, Int.sign_tmod, ← Int64.toInt_inj, remainder]
      by_cases divides : b.toInt ∣ a.toInt
      · exact .inl (Int.tmod_eq_zero_of_dvd divides)
      · exact .inr (if_neg divides)

/-- A dividend and a divisor of opposite signs. -/
theorem remainder_completes_quotient_of_negative :
    (3 : Int64) ≠ 0 ∧ ∃ q r : Int64,
      div.apply (.integer (-7)) (.integer 3) = .ok (.integer q) ∧
      mod.apply (.integer (-7)) (.integer 3) = .ok (.integer r) ∧
      (-7 : Int64).toInt = (3 : Int64).toInt * q.toInt + r.toInt ∧
      r.toInt.natAbs < (3 : Int64).toInt.natAbs ∧
      (r = 0 ∨ r.toInt.sign = (-7 : Int64).toInt.sign) := by
  have completes := remainder_completes_quotient (-7) (b := 3) (by decide)
  rw [if_neg (by decide)] at completes
  exact ⟨by decide, completes⟩

/-- The remainder that the least integer has none of would be zero. -/
theorem least_integer_lacks_remainder :
    mod.exact Int64.minValue.toInt (-1) = 0 ∧
      mod.apply (.integer Int64.minValue) (.integer (-1)) = .error .overflow ∧
      ¬ ∀ a b : Int64, b ≠ 0 →
        ∃ r : Int64, mod.apply (.integer a) (.integer b) = .ok (.integer r) := by
  refine ⟨by decide, rfl, fun always => ?_⟩
  obtain ⟨r, remains⟩ := always Int64.minValue (-1) (by decide)
  cases remains

end BinaryOperator

end GotoLang
