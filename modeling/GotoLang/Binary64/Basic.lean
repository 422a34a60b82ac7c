/- Every finite binary64 number is a whole number of units of `2 ^ -1074`, the smallest positive
one. A number is kept as that whole number, so comparison is comparison of integers, and each
operation is computed exactly and rounded once, to the nearest number with ties to even. -/

set_option autoImplicit false

namespace GotoLang

/-- The magnitudes, counted in units, that have at most 53 significant bits. -/
def Significant (units : Nat) : Prop := Nat.pow 2 (units.log2 - 52) ∣ units

instance (units : Nat) : Decidable (Significant units) :=
  inferInstanceAs (Decidable (Nat.pow 2 (units.log2 - 52) ∣ units))

namespace Binary64

/-- The number of units in one. -/
def one : Nat := Nat.pow 2 1074

/-- The first magnitude, in units, that is too large for a finite number. -/
def overflow : Nat := Nat.pow 2 2098

end Binary64

/-- An IEEE 754 binary64 number. A finite one is a sign and a whole number of units. -/
inductive Binary64 where
  | nan
  | infinite (negative : Bool)
  | finite (negative : Bool) (units : Nat)
      (bounded : units < Binary64.overflow) (significant : Significant units)
  deriving DecidableEq

/-- The whole number nearest to `num / den`; a tie goes to the even one. -/
def roundHalfEven (num den : Nat) : Nat :=
  let quotient := num / den
  let remainder := num % den
  if 2 * remainder < den then quotient
  else if den < 2 * remainder then quotient + 1
  else quotient + quotient % 2

theorem roundHalfEven_le (num den : Nat) : roundHalfEven num den ≤ num / den + 1 := by
  have parity := Nat.mod_lt (num / den) (show 0 < 2 by decide)
  simp only [roundHalfEven]
  split
  · omega
  · split <;> omega

namespace Binary64

/-- The significant magnitude nearest to `num / den` units; a tie goes to the even one. -/
def nearestUnits (num den : Nat) : Nat :=
  let grid := Nat.pow 2 ((num / den).log2 - 52)
  roundHalfEven num (den * grid) * grid

theorem significant_mul_two_pow {m : Nat} (k : Nat) (h : m ≤ Nat.pow 2 53) :
    Significant (m * Nat.pow 2 k) := by
  simp only [Significant, Nat.pow_eq] at h ⊢
  rcases Nat.lt_or_eq_of_le h with small | rfl
  · by_cases zero : m * 2 ^ k = 0
    · simp [zero]
    · have bound : m * 2 ^ k < 2 ^ (53 + k) := by
        rw [Nat.pow_add]
        exact Nat.mul_lt_mul_of_pos_right small (Nat.two_pow_pos k)
      have log := (Nat.log2_lt zero).2 bound
      exact Nat.dvd_trans (Nat.pow_dvd_pow 2 (by omega)) (Nat.dvd_mul_left _ _)
  · rw [← Nat.pow_add, Nat.log2_two_pow]
    exact Nat.pow_dvd_pow 2 (by omega)

theorem significant_nearestUnits (num den : Nat) : Significant (nearestUnits num den) := by
  apply significant_mul_two_pow
  simp only [Nat.pow_eq]
  have log : num / den < 2 ^ ((num / den).log2 + 1) := Nat.lt_log2_self
  have grid : (2 : Nat) ^ ((num / den).log2 + 1) ≤
      2 ^ 53 * 2 ^ ((num / den).log2 - 52) := by
    rw [← Nat.pow_add]
    exact Nat.pow_le_pow_right (by decide) (by omega)
  have quotient : num / (den * 2 ^ ((num / den).log2 - 52)) < 2 ^ 53 := by
    rw [← Nat.div_div_eq_div_mul]
    exact Nat.div_lt_of_lt_mul (by rw [Nat.mul_comm]; omega)
  have rounded := roundHalfEven_le num (den * 2 ^ ((num / den).log2 - 52))
  omega

/-- The number nearest to `num / den` units, with the given sign. A magnitude that rounds to
`overflow` or more becomes infinite. -/
def nearest (negative : Bool) (num den : Nat) : Binary64 :=
  let units := nearestUnits num den
  if bounded : units < overflow then
    .finite negative units bounded (significant_nearestUnits num den)
  else .infinite negative

theorem overflow_pos : 0 < overflow := by decide +kernel

def zero (negative : Bool) : Binary64 :=
  .finite negative 0 overflow_pos (Nat.dvd_zero _)

/-- The number nearest to a whole number of units. A sum of zero is positive. -/
def ofUnits (units : Int) : Binary64 :=
  nearest (decide (units < 0)) units.natAbs 1

def ofInt (n : Int) : Binary64 :=
  ofUnits (n * one)

theorem ofInt_eq (n : Int) : ofInt n = ofUnits (n * one) := rfl

-- Nothing is gained by computing with the powers of two that are in it.
attribute [irreducible] ofInt

/-- A finite magnitude with its sign, as an integer. -/
def signed (negative : Bool) (units : Nat) : Int :=
  if negative then -(units : Int) else units

/-- The place of a number on the integer line: its units, with the infinities beyond all finite
numbers. The two zeros share a place, and `nan` has none. -/
def position? : Binary64 → Option Int
  | .nan => none
  | .infinite negative => some (signed negative overflow)
  | .finite negative units _ _ => some (signed negative units)

/-- How two numbers compare; `nan` compares with nothing. -/
def compare? (a b : Binary64) : Option Ordering :=
  match a.position?, b.position? with
  | some p, some q => some (compare p q)
  | _, _ => none

/-- Numeric equality: the zeros are equal, and `nan` differs from everything. -/
def same (a b : Binary64) : Bool :=
  a.compare? b == some .eq

def isZero : Binary64 → Bool
  | .finite _ units _ _ => units == 0
  | _ => false

def neg : Binary64 → Binary64
  | .nan => .nan
  | .infinite negative => .infinite (!negative)
  | .finite negative units bounded significant => .finite (!negative) units bounded significant

/-- The rounded sum. Two negative zeros add to a negative zero; any other exact zero is
positive. -/
def add : Binary64 → Binary64 → Binary64
  | .nan, _ => .nan
  | _, .nan => .nan
  | .infinite p, .infinite q => if p = q then .infinite p else .nan
  | .infinite p, .finite .. => .infinite p
  | .finite .., .infinite q => .infinite q
  | .finite p a _ _, .finite q b _ _ =>
    if a = 0 ∧ b = 0 then zero (p && q) else ofUnits (signed p a + signed q b)

/-- The rounded product; zero times an infinite number is `nan`. -/
def mul : Binary64 → Binary64 → Binary64
  | .nan, _ => .nan
  | _, .nan => .nan
  | .infinite p, .infinite q => .infinite (p ^^ q)
  | .infinite p, .finite q b _ _ => if b = 0 then .nan else .infinite (p ^^ q)
  | .finite p a _ _, .infinite q => if a = 0 then .nan else .infinite (p ^^ q)
  | .finite p a _ _, .finite q b _ _ => nearest (p ^^ q) (a * b) one

/-- The rounded quotient; a finite number over a zero is infinite, and zero over zero is
`nan`. -/
def div : Binary64 → Binary64 → Binary64
  | .nan, _ => .nan
  | _, .nan => .nan
  | .infinite _, .infinite _ => .nan
  | .infinite p, .finite q _ _ _ => .infinite (p ^^ q)
  | .finite p _ _ _, .infinite q => zero (p ^^ q)
  | .finite p a _ _, .finite q b _ _ =>
    if b = 0 then if a = 0 then .nan else .infinite (p ^^ q)
    else nearest (p ^^ q) (a * one) b

instance : Neg Binary64 := ⟨neg⟩
instance : Add Binary64 := ⟨add⟩
instance : Sub Binary64 := ⟨fun a b => a + -b⟩
instance : Mul Binary64 := ⟨mul⟩
instance : Div Binary64 := ⟨div⟩

end Binary64

end GotoLang
