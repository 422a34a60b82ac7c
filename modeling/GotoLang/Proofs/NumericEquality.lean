import GotoLang.Proofs.Comparison
import GotoLang.Proofs.ExactArithmetic
import GotoLang.Proofs.RealText
import Mathlib.Algebra.Order.Field.Rat
import Mathlib.Algebra.Order.Field.Basic
import Mathlib.Tactic.Ring

set_option autoImplicit false

namespace GotoLang

/-- No multiple of the divisor is nearer. -/
theorem roundHalfEven_nearest {den : Nat} (pos : 0 < den) (num k : Nat) :
    ((roundHalfEven num den * den : Nat) - num : Int).natAbs ≤
      ((k * den : Nat) - num : Int).natAbs := by
  have whole : num / den * den + num % den = num := Nat.div_add_mod' num den
  have small := Nat.mod_lt num pos
  have next : (num / den + 1) * den = num / den * den + den := Nat.succ_mul _ _
  have apart : k * den ≤ num / den * den ∨ (num / den + 1) * den ≤ k * den := by
    rcases Nat.lt_or_ge (num / den) k with above | below
    · exact .inr (Nat.mul_le_mul_right den above)
    · exact .inl (Nat.mul_le_mul_right den below)
  unfold roundHalfEven
  dsimp only
  split
  · omega
  · split
    · omega
    · -- A tie is as far from the quotient as from its successor.
      rcases Nat.mod_two_eq_zero_or_one (num / den) with even | odd
      · rw [even, Nat.add_zero]
        omega
      · rw [odd]
        omega

namespace Binary64

theorem significant_zero : Significant 0 := Nat.dvd_zero _

/-- No magnitude of few enough bits is nearer to a whole number of units. -/
theorem nearestUnits_nearest {units : Nat} (significant : Significant units) (num : Nat) :
    ((nearestUnits num 1 : Nat) - num : Int).natAbs ≤ ((units : Nat) - num : Int).natAbs := by
  simp only [nearestUnits, Nat.div_one, Nat.one_mul, Nat.pow_eq]
  have grid : 0 < 2 ^ (num.log2 - 52) := Nat.two_pow_pos _
  by_cases multiple : 2 ^ (num.log2 - 52) ∣ units
  · obtain ⟨k, rfl⟩ := multiple
    rw [Nat.mul_comm _ k]
    exact roundHalfEven_nearest grid num k
  · -- The magnitude has fewer bits, so the power of two at the top of the number is nearer.
    have fewer : units.log2 < num.log2 := by
      by_contra more
      apply multiple
      exact (Nat.pow_dvd_pow 2 (by omega)).trans significant
    have long : 52 ≤ num.log2 := by
      by_contra short
      rw [Nat.sub_eq_zero_of_le (by omega)] at multiple
      exact multiple (one_dvd _)
    have top : 2 ^ num.log2 = 2 ^ 52 * 2 ^ (num.log2 - 52) := by
      rw [← Nat.pow_add, Nat.add_sub_cancel' long]
    have below : units < 2 ^ num.log2 :=
      Nat.lt_of_lt_of_le Nat.lt_log2_self (Nat.pow_le_pow_right (by decide) fewer)
    have above : 2 ^ num.log2 ≤ num := Nat.log2_self_le (by rintro rfl; simp at long)
    have nearer := roundHalfEven_nearest grid num (2 ^ 52)
    rw [← top] at nearer
    omega

def value? : Binary64 → Option ℚ
  | .finite negative units _ _ => some ((signed negative units : ℚ) / (one : ℚ))
  | _ => none

variable {negative : Bool} {units : Nat} {bounded : units < overflow}
  {significant : Significant units}

@[simp] theorem value?_nan : nan.value? = none := rfl

@[simp] theorem value?_infinite : (infinite negative).value? = none := rfl

@[simp] theorem value?_finite : (finite negative units bounded significant).value? =
    some ((signed negative units : ℚ) / (one : ℚ)) := rfl

theorem one_ne_zero : (one : ℚ) ≠ 0 :=
  Nat.cast_ne_zero.2 (Nat.ne_of_gt one_pos)

/-- A real is an integer if its units are those of the integer. -/
theorem value?_eq_int_iff {n : Int} :
    (finite negative units bounded significant).value? = some (n : ℚ) ↔
      signed negative units = n * one := by
  rw [value?_finite, Option.some.injEq, div_eq_iff one_ne_zero]
  exact_mod_cast Iff.rfl

theorem natAbs_signed (negative : Bool) (units : Nat) : (signed negative units).natAbs = units := by
  cases negative
  · exact Int.natAbs_natCast units
  · exact (Int.natAbs_neg _).trans (Int.natAbs_natCast units)

theorem signed_natAbs (m : Int) : signed (decide (m < 0)) m.natAbs = m := by
  unfold signed
  by_cases below : m < 0
  · rw [decide_eq_true below, if_pos rfl]
    omega
  · rw [decide_eq_false below, if_neg Bool.false_ne_true]
    omega

theorem signed_mul (negative : Bool) (units k : Nat) :
    signed negative (units * k) = signed negative units * k := by
  cases negative
  · exact Nat.cast_mul units k
  · exact (congrArg Neg.neg (Nat.cast_mul units k)).trans (Int.neg_mul _ _).symm

theorem same_iff_position? {a b : Binary64} :
    a.same b = true ↔ ∃ p, a.position? = some p ∧ b.position? = some p := by
  unfold same compare?
  cases a.position? with
  | none => simp
  | some p =>
    cases b.position? with
    | none => simp
    | some q => simpa using eq_comm

theorem same_trans {a b c : Binary64} (first : a.same b = true) (second : b.same c = true) :
    a.same c = true := by
  rw [same_iff_position?] at *
  obtain ⟨p, one, other⟩ := first
  obtain ⟨q, same, last⟩ := second
  cases other.symm.trans same
  exact ⟨p, one, last⟩

/-- A finite real equals the reals of the same value, and no others. -/
theorem same_iff_value? {a : Binary64} {v : ℚ} (is : a.value? = some v) (b : Binary64) :
    a.same b = true ↔ b.value? = some v := by
  cases a with
  | nan | infinite => cases is
  | finite negative units bounded significant =>
    cases is
    rw [same_iff_position?]
    simp only [position?, Option.some.injEq, exists_eq_left']
    cases b with
    | nan => simp only [value?_nan, reduceCtorEq]
    | infinite sign =>
      have far : signed sign overflow ≠ signed negative units := by
        intro same
        have sizes := congrArg Int.natAbs same
        rw [natAbs_signed, natAbs_signed] at sizes
        omega
      simp only [value?_infinite, Option.some.injEq, far, reduceCtorEq]
    | finite sign others =>
      simp only [value?_finite, Option.some.injEq]
      rw [div_left_inj' one_ne_zero, Int.cast_inj]

/-- An integer of 64 bits is rounded to a finite real. -/
theorem ofInt_finite (n : Int64) :
    ∃ bounded significant, ofInt n.toInt =
      .finite (decide (n.toInt * one < 0)) (nearestUnits (n.toInt * one).natAbs 1) bounded
        significant := by
  have limit : 2 * (2 ^ 63 * one) < overflow := by decide +kernel
  have size : (n.toInt * one).natAbs ≤ 2 ^ 63 * one := by
    rw [Int.natAbs_mul, Int.natAbs_natCast]
    have low := n.minValue_le_toInt
    have high := n.toInt_le
    rw [Int64.toInt_minValue] at low
    rw [Int64.toInt_maxValue] at high
    exact Nat.mul_le_mul_right one (by omega)
  have near := nearestUnits_nearest significant_zero (n.toInt * one).natAbs
  have bounded : nearestUnits (n.toInt * one).natAbs 1 < overflow := by omega
  exact ⟨bounded, significant_nearestUnits _ _, by rw [ofInt_eq, ofUnits, nearest, dif_pos bounded]⟩

theorem abs_value_sub (units n : Int) :
    |(units : ℚ) / (one : ℚ) - n| = ((units - n * one).natAbs : ℚ) / (one : ℚ) := by
  have scaled : (units : ℚ) / (one : ℚ) - n = ((units - n * one : Int) : ℚ) / (one : ℚ) := by
    rw [div_sub' one_ne_zero]
    push_cast
    ring
  rw [scaled, abs_div, Nat.cast_natAbs, Int.cast_abs, Nat.abs_cast]

/-- With the sign of what is rounded, the nearest magnitude gives the nearest number: one of the
other sign is farther away than zero. -/
theorem signed_nearest {magnitude units : Nat} {m : Int}
    (near : ((magnitude : Nat) - m.natAbs : Int).natAbs ≤ ((units : Nat) - m.natAbs : Int).natAbs)
    (nearZero : ((magnitude : Nat) - m.natAbs : Int).natAbs ≤ ((0 : Nat) - m.natAbs : Int).natAbs)
    (negative : Bool) :
    (signed (decide (m < 0)) magnitude - m).natAbs ≤ (signed negative units - m).natAbs := by
  by_cases below : m < 0
  · rw [decide_eq_true below]
    cases negative <;> simp only [signed, if_true, Bool.false_eq_true, if_false] <;> omega
  · rw [decide_eq_false below]
    cases negative <;> simp only [signed, if_true, Bool.false_eq_true, if_false] <;> omega

/-- No real is nearer to an integer than the one that it is rounded to. -/
theorem ofInt_nearest (n : Int64) :
    ∃ v, (ofInt n.toInt).value? = some v ∧
      ∀ (s : Binary64) (w : ℚ), s.value? = some w → |v - n.toInt| ≤ |w - n.toInt| := by
  obtain ⟨_, _, rounded⟩ := ofInt_finite n
  refine ⟨_, by rw [rounded, value?_finite], ?_⟩
  intro s w is
  cases s with
  | nan | infinite => cases is
  | finite negative units bounded significant =>
    cases is
    rw [abs_value_sub, abs_value_sub]
    have nearer := signed_nearest (nearestUnits_nearest significant (n.toInt * one).natAbs)
      (nearestUnits_nearest significant_zero (n.toInt * one).natAbs) negative
    exact div_le_div_of_nonneg_right (Nat.cast_le.2 nearer) (Nat.cast_nonneg _)

/-- The integer is the value of a real. -/
def Represents (n : Int) : Prop :=
  ∃ s : Binary64, s.value? = some (n : ℚ)

/-- An integer that is the value of a real is not rounded. -/
theorem Represents.value?_ofInt {n : Int64} (represents : Represents n.toInt) :
    (ofInt n.toInt).value? = some (n.toInt : ℚ) := by
  obtain ⟨s, is⟩ := represents
  obtain ⟨v, rounded, nearest⟩ := ofInt_nearest n
  have same := nearest s _ is
  rw [sub_self, abs_zero, abs_nonpos_iff, sub_eq_zero] at same
  rw [rounded, same]

/-- Integers up to `2 ^ 53` are values of reals. -/
theorem represents_of_le {n : Int} (small : n.natAbs ≤ 2 ^ 53) : Represents n := by
  have limit : 2 ^ 53 * one < overflow := by decide +kernel
  have bounded : n.natAbs * one < overflow :=
    Nat.lt_of_le_of_lt (Nat.mul_le_mul_right one small) limit
  have significant : Significant (n.natAbs * one) := by
    unfold one
    generalize 1074 = k
    exact significant_mul_two_pow k small
  refine ⟨.finite (decide (n < 0)) (n.natAbs * one) bounded significant, ?_⟩
  rw [value?_eq_int_iff, signed_mul, signed_natAbs]

end Binary64

namespace Value

/-- At some place of three values there are an integer, a real and another integer. -/
inductive Meets : Value → Value → Value → Prop
  | here {m n : Int64} {r : Binary64} (differ : m ≠ n) : Meets (.integer m) (.real r) (.integer n)
  | first {a b c : Value} {as bs cs : List Value} (inside : Meets a b c) :
      Meets (.vector (a :: as)) (.vector (b :: bs)) (.vector (c :: cs))
  | later {a b c : Value} {as bs cs : List Value}
      (inside : Meets (.vector as) (.vector bs) (.vector cs)) :
      Meets (.vector (a :: as)) (.vector (b :: bs)) (.vector (c :: cs))

theorem meets_cons_iff {a b c : Value} {as bs cs : List Value} :
    Meets (.vector (a :: as)) (.vector (b :: bs)) (.vector (c :: cs)) ↔
      Meets a b c ∨ Meets (.vector as) (.vector bs) (.vector cs) := by
  constructor
  · rintro (_ | inside | inside)
    · exact .inl inside
    · exact .inr inside
  · rintro (inside | inside)
    · exact .first inside
    · exact .later inside

inductive HasInteger (n : Int64) : Value → Prop
  | here : HasInteger n (.integer n)
  | inside {elements : List Value} {v : Value} (member : v ∈ elements) (has : v.HasInteger n) :
      HasInteger n (.vector elements)

/-- An integer and a real are equal if the real has the value to which the integer is rounded. -/
theorem same_integer_real_iff (n : Int64) (r : Binary64) :
    (integer n).same (real r) = true ↔ r.value? = (Binary64.ofInt n.toInt).value? := by
  obtain ⟨v, is, _⟩ := Binary64.ofInt_nearest n
  rw [is]
  exact Binary64.same_iff_value? is r

section

variable {a b c : Value}

theorem sameAll_trans_iff {as bs cs : List Value}
    (each : ∀ a ∈ as, ∀ b c : Value, a.same b = true → b.same c = true →
      (a.same c = true ↔ ¬ Meets a b c))
    (first : sameAll as bs = true) (second : sameAll bs cs = true) :
    sameAll as cs = true ↔ ¬ Meets (.vector as) (.vector bs) (.vector cs) := by
  induction as generalizing bs cs with
  | nil =>
    cases bs with
    | nil =>
      cases cs with
      | nil => exact iff_of_true rfl nofun
      | cons c cs => cases second
    | cons b bs => cases first
  | cons a as ih =>
    cases bs with
    | nil => cases first
    | cons b bs =>
      cases cs with
      | nil => cases second
      | cons c cs =>
        simp only [sameAll, Bool.and_eq_true] at first second ⊢
        obtain ⟨here, others⟩ := List.forall_mem_cons.1 each
        rw [here b c first.1 second.1, ih others first.2 second.2, meets_cons_iff, not_or]

/-- Two values that equal a third equal each other, unless different integers in them meet in one
real. -/
theorem same_trans_iff (first : a.same b = true) (second : b.same c = true) :
    a.same c = true ↔ ¬ Meets a b c := by
  induction a using treeInduction generalizing b c with
  | integer m =>
    cases b with
    | integer n =>
      obtain rfl : m = n := beq_iff_eq.1 first
      exact iff_of_true second nofun
    | real r =>
      cases c with
      | integer n =>
        constructor
        · intro same
          obtain rfl : m = n := beq_iff_eq.1 same
          rintro ⟨differ⟩
          exact differ rfl
        · intro apart
          by_contra differ
          exact apart (.here fun same => differ (beq_iff_eq.2 same))
      | real s => exact iff_of_true (Binary64.same_trans first second) nofun
      | text | boolean | vector => cases second
    | text | boolean | vector => cases first
  | real r =>
    have apart : ¬ Meets (.real r) b c := nofun
    cases b with
    | integer n =>
      cases c with
      | integer m =>
        obtain rfl : n = m := beq_iff_eq.1 second
        exact iff_of_true first apart
      | real s => exact iff_of_true (Binary64.same_trans first second) apart
      | text | boolean | vector => cases second
    | real s =>
      cases c with
      | integer | real => exact iff_of_true (Binary64.same_trans first second) apart
      | text | boolean | vector => cases second
    | text | boolean | vector => cases first
  | text s =>
    cases b with
    | text t =>
      obtain rfl : s = t := beq_iff_eq.1 first
      exact iff_of_true second nofun
    | integer | real | boolean | vector => cases first
  | boolean truth =>
    cases b with
    | boolean other =>
      obtain rfl : truth = other := beq_iff_eq.1 first
      exact iff_of_true second nofun
    | integer | real | text | vector => cases first
  | vector as each =>
    cases b with
    | vector bs =>
      cases c with
      | vector cs =>
        simp only [same] at first second ⊢
        exact sameAll_trans_iff (fun a member b c => each a member) first second
      | integer | real | text | boolean => cases second
    | integer | real | text | boolean => cases first

/-- Integers that meet in one real are rounded to the same value. -/
theorem Meets.rounded (meets : Meets a b c) (first : a.same b = true) (second : b.same c = true) :
    ∃ m n : Int64, a.HasInteger m ∧ c.HasInteger n ∧ m ≠ n ∧
      (Binary64.ofInt m.toInt).value? = (Binary64.ofInt n.toInt).value? := by
  induction meets with
  | @here m n r differ =>
    rw [same_comm] at second
    have one := (same_integer_real_iff m r).1 first
    have other := (same_integer_real_iff n r).1 second
    exact ⟨m, n, .here, .here, differ, one.symm.trans other⟩
  | first inside ih =>
    simp only [same, sameAll, Bool.and_eq_true] at first second
    obtain ⟨m, n, one, other, found⟩ := ih first.1 second.1
    exact ⟨m, n, .inside List.mem_cons_self one, .inside List.mem_cons_self other, found⟩
  | later inside ih =>
    simp only [same, sameAll, Bool.and_eq_true] at first second ih
    obtain ⟨m, n, one, other, found⟩ := ih first.2 second.2
    cases one with
    | inside inOne one =>
      cases other with
      | inside inOther other =>
        exact ⟨m, n, .inside (List.mem_cons_of_mem _ inOne) one,
          .inside (List.mem_cons_of_mem _ inOther) other, found⟩

/-- Where no integer is rounded, equality is transitive. -/
theorem same_trans_of_exact (first : a.same b = true) (second : b.same c = true)
    (unrounded : ∀ n : Int64, a.HasInteger n ∨ c.HasInteger n → Binary64.Represents n.toInt) :
    a.same c = true := by
  rw [same_trans_iff first second]
  intro meets
  obtain ⟨m, n, one, other, differ, same⟩ := meets.rounded first second
  rw [(unrounded m (.inl one)).value?_ofInt, (unrounded n (.inr other)).value?_ofInt,
    Option.some.injEq, Int.cast_inj, Int64.toInt_inj] at same
  exact differ same

end

/-- An integer and a real are equal if the real has the value of the real nearest to the integer,
which is the integer if any real has that value, as up to `2 ^ 53`. Equality is transitive except
for different integers that meet in one real, and there are none of these where no integer is
rounded. -/
theorem equality_up_to_rounding (n : Int64) (r : Binary64) (a b c : Value) :
    (∃ v, (Binary64.ofInt n.toInt).value? = some v ∧
      (∀ (s : Binary64) (w : ℚ), s.value? = some w → |v - n.toInt| ≤ |w - n.toInt|) ∧
      ((integer n).same (real r) = true ↔ r.value? = some v) ∧
      ((real r).same (integer n) = true ↔ r.value? = some v) ∧
      (Binary64.Represents n.toInt → v = n.toInt)) ∧
    (n.toInt.natAbs ≤ 2 ^ 53 → Binary64.Represents n.toInt) ∧
    (a.same b = true → b.same c = true →
      (a.same c = true ↔ ¬ Meets a b c) ∧
      ((∀ m : Int64, a.HasInteger m ∨ c.HasInteger m → Binary64.Represents m.toInt) →
        a.same c = true)) := by
  refine ⟨?_, Binary64.represents_of_le, ?_⟩
  · obtain ⟨v, rounded, nearest⟩ := Binary64.ofInt_nearest n
    have equal := same_integer_real_iff n r
    rw [rounded] at equal
    refine ⟨v, rounded, nearest, equal, ?_, ?_⟩
    · rw [same_comm]
      exact equal
    · intro represents
      exact Option.some.inj (rounded.symm.trans represents.value?_ofInt)
  · intro first second
    exact ⟨same_trans_iff first second, same_trans_of_exact first second⟩

theorem equality_up_to_rounding_at_limit :
    (∃ a b c : Value, a = .vector [.integer 9007199254740993] ∧
      b = .vector [.real (.ofInt 9007199254740992)] ∧ c = .vector [.integer 9007199254740992] ∧
      a.same b = true ∧ b.same c = true ∧ ¬ a.same c = true) ∧
    (Binary64.ofInt (9007199254740992 : Int64).toInt).value? =
      some ((9007199254740992 : Int64).toInt : ℚ) ∧
    (integer 0).same (real (.zero false)) = true ∧
    (real (.zero false)).same (real (.zero true)) = true ∧
    (integer 0).same (real (.zero true)) = true := by
  let a : Value := .vector [.integer 9007199254740993]
  let b : Value := .vector [.real (.ofInt 9007199254740992)]
  let c : Value := .vector [.integer 9007199254740992]
  have first : a.same b = true := by decide +kernel
  have second : b.same c = true := by decide +kernel
  have meets : Meets a b c := .first (.here (by decide))
  obtain ⟨⟨v, rounded, _, _, _, exact⟩, small, transitive⟩ :=
    equality_up_to_rounding 9007199254740992 .nan a b c
  obtain ⟨equal, _⟩ := transitive first second
  have value := exact (small (by decide))
  -- The zeros are one number, and no integer is rounded among them.
  have zero : (integer 0).same (real (.zero false)) = true := by decide +kernel
  have signs : (real (.zero false)).same (real (.zero true)) = true := by decide +kernel
  obtain ⟨_, smallZero, transitiveZero⟩ :=
    equality_up_to_rounding 0 .nan (.integer 0) (.real (.zero false)) (.real (.zero true))
  have unrounded (m : Int64) (has : HasInteger m (.integer 0) ∨ HasInteger m (.real (.zero true))) :
      Binary64.Represents m.toInt := by
    cases has with
    | inl inside =>
      cases inside
      exact smallZero (by decide)
    | inr inside => cases inside
  obtain ⟨_, same⟩ := transitiveZero zero signs
  exact ⟨⟨a, b, c, rfl, rfl, rfl, first, second, fun same => equal.1 same meets⟩, value ▸ rounded,
    zero, signs, same unrounded⟩

/-- Two integers behind `2 ^ 53` that differ are equal to one real, and only one of them is its
value. -/
theorem different_integers_equal_one_real :
    ∃ (m n : Int64) (r : Binary64), m = 9007199254740993 ∧ n = 9007199254740992 ∧
      (integer m).same (real r) = true ∧ (real r).same (integer n) = true ∧
      (integer m).same (integer n) = false ∧
      (vector [integer m]).same (vector [real r]) = true ∧
      (vector [real r]).same (vector [integer n]) = true ∧
      (vector [integer m]).same (vector [integer n]) = false ∧
      r.value? = some (n.toInt : ℚ) ∧ r.value? ≠ some (m.toInt : ℚ) := by
  have represents : Binary64.Represents (9007199254740992 : Int64).toInt :=
    Binary64.represents_of_le (by decide)
  have value := represents.value?_ofInt
  refine ⟨9007199254740993, 9007199254740992, .ofInt (9007199254740992 : Int64).toInt, rfl, rfl,
    by decide +kernel, by decide +kernel, by decide +kernel, by decide +kernel, by decide +kernel,
    by decide +kernel, value, ?_⟩
  rw [value]
  intro same
  have equal := Int64.toInt_inj.1 (Int.cast_inj.1 (Option.some.inj same))
  exact absurd equal (by decide)

end Value

end GotoLang
