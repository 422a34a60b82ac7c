import GotoLang.Proofs.IntegerFragment

set_option autoImplicit false

namespace GotoLang

def FitsInt64 (n : Int) : Prop :=
  Int64.minValue.toInt ≤ n ∧ n ≤ Int64.maxValue.toInt

instance (n : Int) : Decidable (FitsInt64 n) :=
  inferInstanceAs (Decidable (_ ∧ _))

/-- The exact result of an arithmetic operator. Division drops the part behind the point, and the
remainder has the sign of the dividend. -/
def BinaryOperator.exact (a b : Int) : BinaryOperator → Int
  | add => a + b
  | sub => a - b
  | mul => a * b
  | div => a.sign * b.sign * (a.natAbs / b.natAbs : Nat)
  | mod => a.sign * (a.natAbs % b.natAbs : Nat)
  | equal | notEqual | less | lessEqual | greater | greaterEqual => 0

def overflow? (n : Int) : Option RuntimeFault :=
  if FitsInt64 n then none else some .overflow

/-- The fault of an arithmetic operator. A remainder is one of a division, whose quotient has to
fit. -/
def BinaryOperator.exactFault? (a b : Int) : BinaryOperator → Option RuntimeFault
  | div | mod => if b = 0 then some .divisionByZero else overflow? (div.exact a b)
  | op => overflow? (op.exact a b)

namespace Expr

def names : Expr → List String
  | integer _ _ | real _ _ => []
  | var name _ => [name]
  | element name index _ => name :: index.names
  | negate operand _ => operand.names
  | binary _ left right _ => left.names ++ right.names

/-- The number that an arithmetic expression is over all the integers. -/
def exact (held : String → Int64) : Expr → Int
  | integer n _ => n.toInt
  | var name _ => (held name).toInt
  | real _ _ | element _ _ _ => 0
  | negate operand _ => -operand.exact held
  | binary op left right _ => op.exact (left.exact held) (right.exact held)

/-- The faults of the operators on exact numbers, each with the line of its operator: those of the
left operand, then of the right one, then of the operator. What comes behind the first is not
carried out. -/
def faults (held : String → Int64) : Expr → List RuntimeError
  | integer _ _ | real _ _ | var _ _ | element _ _ _ => []
  | negate operand line =>
    operand.faults held ++ ((overflow? (-operand.exact held)).map (⟨·, line⟩)).toList
  | binary op left right line =>
    left.faults held ++ (right.faults held ++
      ((op.exactFault? (left.exact held) (right.exact held)).map (⟨·, line⟩)).toList)

end Expr

theorem BinaryOperator.exact_div (a b : Int) : div.exact a b = a.tdiv b := by
  have parts := Int.sign_mul_natAbs (a.tdiv b)
  rw [Int.sign_tdiv, Int.natAbs_tdiv] at parts
  rw [← parts, exact]
  split
  · rename_i small
    have zero : a.natAbs / b.natAbs = 0 := Nat.div_eq_of_lt small
    rw [zero, Int.zero_mul]
    exact Int.mul_zero _
  · rfl

theorem BinaryOperator.exact_mod (a b : Int) : mod.exact a b = a.tmod b := by
  have parts := Int.sign_mul_natAbs (a.tmod b)
  rw [Int.sign_tmod, Int.natAbs_tmod] at parts
  rw [← parts, exact]
  split
  · rename_i divides
    have zero : a.natAbs % b.natAbs = 0 := Nat.mod_eq_zero_of_dvd (Int.natAbs_dvd_natAbs.2 divides)
    rw [zero, Int.zero_mul]
    exact Int.mul_zero _
  · rfl

theorem fits_toInt (n : Int64) : FitsInt64 n.toInt :=
  ⟨n.minValue_le_toInt, n.toInt_le⟩

/-- A remainder is nearer to zero than its divisor. -/
theorem fits_tmod (a : Int) {b : Int} (fits : FitsInt64 b) (nonzero : b ≠ 0) :
    FitsInt64 (a.tmod b) := by
  have size : (a.tmod b).natAbs < b.natAbs := by
    rw [Int.natAbs_tmod]
    exact Nat.mod_lt _ (Int.natAbs_pos.2 nonzero)
  unfold FitsInt64 at *
  rw [Int64.toInt_minValue, Int64.toInt_maxValue] at *
  omega

theorem exists_of_fits {n : Int} (fits : FitsInt64 n) :
    ∃ v : Int64, v.toInt = n ∧ int64? n = some v := by
  cases found : int64? n with
  | some v => exact ⟨v, int64?_eq_some_iff.1 found, rfl⟩
  | none =>
    unfold FitsInt64 at fits
    rw [int64?_eq_none_iff] at found
    omega

theorem int64?_of_not_fits {n : Int} (large : ¬ FitsInt64 n) : int64? n = none := by
  unfold FitsInt64 at large
  rw [int64?_eq_none_iff]
  omega

theorem le_roundHalfEven (num den : Nat) : num / den ≤ roundHalfEven num den := by
  unfold roundHalfEven
  dsimp only
  split
  · exact Nat.le_refl _
  · split
    · exact Nat.le_succ _
    · exact Nat.le_add_right _ _

/-- No whole number of units but zero is rounded to zero. -/
theorem Binary64.nearestUnits_eq_zero_iff {num : Nat} : nearestUnits num 1 = 0 ↔ num = 0 := by
  constructor
  · intro zero
    by_contra positive
    have grid : Nat.pow 2 (num.log2 - 52) ≤ num := by
      calc Nat.pow 2 (num.log2 - 52) ≤ Nat.pow 2 num.log2 :=
            Nat.pow_le_pow_right (by decide) (Nat.sub_le _ _)
        _ ≤ num := Nat.log2_self_le positive
    have gridPos : 0 < Nat.pow 2 (num.log2 - 52) := Nat.two_pow_pos _
    have rounded := le_roundHalfEven num (Nat.pow 2 (num.log2 - 52))
    have quotient : 0 < num / Nat.pow 2 (num.log2 - 52) := Nat.div_pos grid gridPos
    simp only [nearestUnits, Nat.div_one, Nat.one_mul] at zero
    rcases Nat.mul_eq_zero.1 zero with none | none <;> omega
  · rintro rfl
    rfl

theorem Binary64.isZero_nearest (negative : Bool) (num : Nat) :
    (nearest negative num 1).isZero = decide (num = 0) := by
  unfold nearest
  dsimp only
  split
  · rw [Bool.eq_iff_iff, decide_eq_true_iff]
    exact beq_iff_eq.trans nearestUnits_eq_zero_iff
  · rename_i large
    have nonzero : num ≠ 0 := by
      rintro rfl
      exact large overflow_pos
    exact (decide_eq_false nonzero).symm

theorem Binary64.one_pos : 0 < one := by decide +kernel

/-- No integer but zero is zero as a real. -/
theorem Binary64.isZero_ofInt (n : Int) : (ofInt n).isZero = decide (n = 0) := by
  have units : (n * one).natAbs = 0 ↔ n = 0 := by
    rw [Int.natAbs_eq_zero, Int.mul_eq_zero]
    exact or_iff_left (Int.natCast_ne_zero.2 (Nat.ne_of_gt one_pos))
  rw [ofInt_eq, ofUnits, isZero_nearest]
  exact decide_eq_decide.2 units

/-- A value is zero exactly if it is a number that is zero as a real. -/
theorem Value.isZero_eq_any_number? (v : Value) : v.isZero = v.number?.any Binary64.isZero := by
  cases v with
  | integer n =>
    rw [number?, Option.any_some, Binary64.isZero_ofInt, isZero, beq_eq_decide]
    have same : n = 0 ↔ n.toInt = 0 := Int64.toInt_inj.symm
    exact decide_eq_decide.2 same
  | real r => rfl
  | text | boolean | vector => rfl

/-- How an evaluation ends whose operators have these faults and whose exact result is this
number. -/
inductive EndsExactly (exact : Int) : List RuntimeError → Except RuntimeError Value → Prop
  | value {v : Int64} (same : v.toInt = exact) : EndsExactly exact [] (.ok (.integer v))
  | fault {e : RuntimeError} {later : List RuntimeError} :
      EndsExactly exact (e :: later) (.error e)

namespace EndsExactly

variable {a b : Int} {faults more : List RuntimeError} {result : Except RuntimeError Value}

theorem bind {next : Value → Except RuntimeError Value} (first : EndsExactly a faults result)
    (rest : ∀ v : Int64, v.toInt = a → EndsExactly b more (next (.integer v))) :
    EndsExactly b (faults ++ more) (result >>= next) := by
  cases first with
  | value same => exact rest _ same
  | fault => exact .fault

/-- A number is the value if it fits, and an overflow otherwise. -/
theorem exactly (n : Int) (line : Nat) :
    EndsExactly n ((overflow? n).map (⟨·, line⟩)).toList (onLine line (Value.exactly n)) := by
  by_cases fits : FitsInt64 n
  · obtain ⟨v, same, found⟩ := exists_of_fits fits
    rw [overflow?, if_pos fits, Value.exactly, found]
    exact .value same
  · rw [overflow?, if_neg fits, Value.exactly, int64?_of_not_fits fits]
    exact .fault

theorem divide (a b : Int64) (line : Nat) :
    EndsExactly (BinaryOperator.div.exact a.toInt b.toInt)
      ((BinaryOperator.div.exactFault? a.toInt b.toInt).map (⟨·, line⟩)).toList
      (onLine line (BinaryOperator.divide (.integer a) (.integer b))) := by
  rw [BinaryOperator.divide_of_numbers rfl rfl, Binary64.isZero_ofInt]
  by_cases zero : b.toInt = 0
  · rw [BinaryOperator.exactFault?, if_pos zero, decide_eq_true zero]
    exact .fault
  · rw [BinaryOperator.exactFault?, if_neg zero, BinaryOperator.exact_div, decide_eq_false zero]
    exact exactly _ line

theorem modulo (a b : Int64) (line : Nat) :
    EndsExactly (BinaryOperator.mod.exact a.toInt b.toInt)
      ((BinaryOperator.mod.exactFault? a.toInt b.toInt).map (⟨·, line⟩)).toList
      (onLine line (BinaryOperator.modulo (.integer a) (.integer b))) := by
  by_cases zero : b = 0
  · subst zero
    exact .fault
  · have nonzero : b.toInt ≠ 0 := fun same => zero (Int64.toInt_inj.1 same)
    rw [BinaryOperator.exactFault?, if_neg nonzero, BinaryOperator.exact_div,
      BinaryOperator.exact_mod]
    simp only [BinaryOperator.modulo, if_neg zero]
    by_cases fits : FitsInt64 (a.toInt.tdiv b.toInt)
    · obtain ⟨quotient, -, found⟩ := exists_of_fits fits
      obtain ⟨remainder, same, left⟩ := exists_of_fits (fits_tmod a.toInt (fits_toInt b) nonzero)
      rw [overflow?, if_pos fits, found]
      simp only [Value.exactly, left]
      exact .value same
    · rw [overflow?, if_neg fits, int64?_of_not_fits fits]
      exact .fault

/-- An arithmetic operator on integers. -/
theorem apply {op : BinaryOperator} (arithmetic : op.level ≠ .relational) (a b : Int64)
    (line : Nat) :
    EndsExactly (op.exact a.toInt b.toInt)
      ((op.exactFault? a.toInt b.toInt).map (⟨·, line⟩)).toList
      (onLine line (op.apply (.integer a) (.integer b))) := by
  cases op with
  | add | sub | mul => exact exactly _ line
  | div => exact divide a b line
  | mod => exact modulo a b line
  | equal | notEqual | less | lessEqual | greater | greaterEqual => exact absurd rfl arithmetic

/-- An arithmetic expression, wherever its variables hold integers. -/
theorem eval {env : Environment} {held : String → Int64} {e : Expr}
    (arithmetic : e.isArithmetic = true)
    (holds : ∀ name ∈ e.names, env.find? name = some (.integer (held name))) :
    EndsExactly (e.exact held) (e.faults held) (e.eval env) := by
  induction e with
  | integer n line => exact .value rfl
  | real r line => cases arithmetic
  | var name line =>
    have found := holds name (List.mem_singleton.2 rfl)
    rw [Expr.eval, Environment.get, found]
    exact .value rfl
  | element name index line ih => cases arithmetic
  | negate operand line ih =>
    apply bind (ih arithmetic holds)
    intro v same
    rw [Expr.exact, ← same]
    exact exactly _ line
  | binary op left right line ihLeft ihRight =>
    obtain ⟨⟨level, leftArithmetic⟩, rightArithmetic⟩ :
        (op.level ≠ .relational ∧ left.isArithmetic = true) ∧ right.isArithmetic = true := by
      simpa [Expr.isArithmetic] using arithmetic
    obtain ⟨leftHolds, rightHolds⟩ := List.forall_mem_append.1 holds
    apply bind (ihLeft leftArithmetic leftHolds)
    intro v same
    apply bind (ihRight rightArithmetic rightHolds)
    intro w sameRight
    rw [Expr.exact, ← same, ← sameRight]
    exact apply level v w line

end EndsExactly

/-- Where its variables hold integers, an arithmetic expression has the value that it has over all
the integers if no operator has a fault on exact numbers, and otherwise the first of these faults.
Nothing else can be the result. -/
theorem eval_arithmetic_exact (e : Expr) (arithmetic : e.isArithmetic = true) (env : Environment)
    (held : String → Int64)
    (holds : ∀ name ∈ e.names, env.find? name = some (.integer (held name))) :
    (∀ v : Int64, e.eval env = .ok (.integer v) ↔ e.faults held = [] ∧ e.exact held = v.toInt) ∧
      (∀ error, e.eval env = .error error ↔ (e.faults held).head? = some error) ∧
      ∀ value, e.eval env = .ok value → ∃ v, value = .integer v := by
  have ends := EndsExactly.eval arithmetic holds
  generalize e.eval env = result at ends
  generalize e.faults held = faults at ends
  cases ends with
  | @value v same =>
    refine ⟨fun w => ?_, fun error => ?_, fun value found => ⟨v, (Except.ok.inj found).symm⟩⟩
    · constructor
      · rintro ⟨⟩
        exact ⟨rfl, same.symm⟩
      · rintro ⟨-, same'⟩
        rw [Int64.toInt_inj.1 (same.trans same')]
    · exact ⟨nofun, nofun⟩
  | @fault e later =>
    refine ⟨fun w => ⟨nofun, fun both => nomatch both.1⟩, fun error => ?_, nofun⟩
    constructor
    · rintro ⟨⟩
      rfl
    · rintro ⟨⟩
      rfl

/-- The remainder has no quotient that fits, which comes before the division by zero. -/
theorem eval_arithmetic_exact_of_remainder :
    ∃ (e : Expr) (env : Environment) (held : String → Int64),
      e = .binary .div (.binary .mod (.var "a" 1) (.negate (.integer 1 1) 1) 2)
        (.binary .sub (.var "b" 3) (.integer 3 3) 3) 4 ∧
      e.isArithmetic = true ∧ (∀ name ∈ e.names, env.find? name = some (.integer (held name))) ∧
      e.eval env = .error ⟨.overflow, 2⟩ := by
  let e : Expr := .binary .div (.binary .mod (.var "a" 1) (.negate (.integer 1 1) 1) 2)
    (.binary .sub (.var "b" 3) (.integer 3 3) 3) 4
  let held : String → Int64 := fun name => if name = "a" then Int64.minValue else 3
  let env : Environment := ⟨[("a", .integer Int64.minValue), ("b", .integer 3)]⟩
  have arithmetic : e.isArithmetic = true := by decide
  have holds : ∀ name ∈ e.names, env.find? name = some (.integer (held name)) := by
    refine List.forall_mem_cons.2 ⟨rfl, List.forall_mem_cons.2 ⟨rfl, List.forall_mem_nil _⟩⟩
  have first : (e.faults held).head? = some ⟨.overflow, 2⟩ := by decide
  exact ⟨e, env, held, rfl, arithmetic, holds,
    ((eval_arithmetic_exact e arithmetic env held holds).2.1 _).2 first⟩

end GotoLang
