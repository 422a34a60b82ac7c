import GotoLang.Proofs.IntegerLiteral

set_option autoImplicit false

namespace GotoLang

theorem roundHalfEven_scale {k : Nat} (pos : 0 < k) (num den : Nat) :
    roundHalfEven (k * num) (k * den) = roundHalfEven num den := by
  have less (a b : Nat) : 2 * (k * a) < k * b ↔ 2 * a < b := by
    rw [Nat.mul_left_comm]
    exact Nat.mul_lt_mul_left pos
  have more (a b : Nat) : k * b < 2 * (k * a) ↔ b < 2 * a := by
    rw [Nat.mul_left_comm]
    exact Nat.mul_lt_mul_left pos
  simp only [roundHalfEven, Nat.mul_div_mul_left num den pos, Nat.mul_mod_mul_left, less, more]

/-- A whole quotient is not rounded. -/
theorem roundHalfEven_mul {den : Nat} (pos : 0 < den) (q : Nat) :
    roundHalfEven (q * den) den = q := by
  simp only [roundHalfEven, Nat.mul_mod_left, Nat.mul_zero, if_pos pos, Nat.mul_div_cancel q pos]

namespace Binary64

theorem nearestUnits_scale {k : Nat} (pos : 0 < k) (num den : Nat) :
    nearestUnits (k * num) (k * den) = nearestUnits num den := by
  simp only [nearestUnits, Nat.mul_div_mul_left num den pos, Nat.mul_assoc,
    roundHalfEven_scale pos]

theorem nearest_scale {k : Nat} (pos : 0 < k) (negative : Bool) (num den : Nat) :
    nearest negative (k * num) (k * den) = nearest negative num den := by
  simp only [nearest, nearestUnits_scale pos]

/-- A magnitude of few enough bits is not rounded. -/
theorem nearestUnits_of_significant {units den : Nat} (significant : Significant units)
    (pos : 0 < den) : nearestUnits (units * den) den = units := by
  obtain ⟨q, exact⟩ := significant
  have positive : 0 < Nat.pow 2 (units.log2 - 52) := Nat.two_pow_pos _
  rw [nearestUnits, Nat.mul_div_cancel units pos]
  -- All units are multiples of the grid, so the quotient by it is whole.
  generalize Nat.pow 2 (units.log2 - 52) = grid at *
  have scaled : units * den = q * (den * grid) := by
    rw [exact]
    ac_rfl
  rw [scaled, roundHalfEven_mul (Nat.mul_pos pos positive), exact, Nat.mul_comm]

theorem nearest_of_significant {units den : Nat} (bounded : units < overflow)
    (significant : Significant units) (pos : 0 < den) (negative : Bool) :
    nearest negative (units * den) den = .finite negative units bounded significant := by
  simp only [nearest, nearestUnits_of_significant significant pos, dif_pos bounded]

def withSign (negative : Bool) : Binary64 → Binary64
  | .nan => .nan
  | .infinite _ => .infinite negative
  | .finite _ units bounded significant => .finite negative units bounded significant

theorem nearest_eq_withSign (negative : Bool) (num den : Nat) :
    nearest negative num den = (nearest false num den).withSign negative := by
  unfold nearest
  dsimp only
  split <;> rfl

/-- The sign of a decimal number is not looked at when it is rounded. -/
theorem ofDecimal_eq_withSign (negative : Bool) (d : Decimal) :
    ofDecimal negative d = (ofDecimal false d).withSign negative := by
  unfold ofDecimal
  split_ifs
  · rfl
  · rfl
  · rfl
  · exact nearest_eq_withSign negative _ _
  · exact nearest_eq_withSign negative _ _

theorem ofDecimal_of_readsAs {d : Decimal} {units : Nat} (reads : readsAs d units = true)
    (bounded : units < overflow) (significant : Significant units) (negative : Bool) :
    ofDecimal negative d = .finite negative units bounded significant := by
  rw [ofDecimal_eq_withSign]
  cases found : ofDecimal false d with
  | nan | infinite =>
    rw [readsAs, found] at reads
    cases reads
  | finite sign magnitude =>
    rw [readsAs, found] at reads
    obtain rfl : magnitude = units := beq_iff_eq.1 reads
    rfl

theorem readsAs_of_neighbour? {units : Nat} {exponent : Int} {d : Decimal}
    (found : neighbour? units exponent = some d) : readsAs d units = true := by
  unfold neighbour? at found
  -- The unit is a number that is better not looked at.
  generalize one = unit at found
  dsimp only at found
  split at found
  · rename_i below above
    cases found
    split
    · exact below
    · exact above
  · rename_i below _
    cases found
    exact below
  · rename_i _ above
    cases found
    exact above
  · cases found

theorem ofDecimal_of_zero {d : Decimal} (none : d.digits = 0) (negative : Bool) :
    ofDecimal negative d = zero negative := by
  rw [ofDecimal, if_pos none]

theorem ofDecimal_of_fraction {digits places : Nat} (nonzero : digits ≠ 0) (fraction : 0 < places)
    (inRange : places ≤ digits.log2 / 3 + 331) (negative : Bool) :
    ofDecimal negative ⟨digits, -places⟩ = nearest negative (digits * one) (Nat.pow 10 places) := by
  have notTiny : ¬ -(places : Int) + (digits.log2 / 3 + 1 : Nat) < -330 := by omega
  rw [ofDecimal]
  dsimp only
  rw [if_neg nonzero, if_neg (by omega), if_neg notTiny, if_neg (by omega), Int.neg_neg,
    Int.toNat_natCast]

theorem le_log2_mul {k factor n : Nat} (positive : 0 < factor) (nonzero : n ≠ 0)
    (bits : k ≤ n.log2) : k ≤ (factor * n).log2 := by
  have power : 2 ^ k ≤ n := (Nat.le_log2 nonzero).1 bits
  have product : factor * n ≠ 0 := Nat.mul_ne_zero (Nat.ne_of_gt positive) nonzero
  exact (Nat.le_log2 product).2 (Nat.le_trans power (Nat.le_mul_of_pos_left n positive))

/-- A real is read from the digits of its exact value, if there are enough places behind the point
to write the unit. -/
theorem readsAs_digits {units factor places : Nat} (positive : 0 < units)
    (bounded : units < overflow) (significant : Significant units) (fraction : 0 < places)
    (unit : factor * one = Nat.pow 10 places) (inRange : places ≤ factor.log2 / 3 + 331) :
    readsAs ⟨units * factor, -places⟩ units = true := by
  have ten : 0 < Nat.pow 10 places := Nat.pow_pos (by decide)
  have nonzero : factor ≠ 0 := by
    rintro rfl
    rw [Nat.zero_mul] at unit
    exact Nat.ne_of_gt ten unit.symm
  have bits := le_log2_mul positive nonzero (Nat.le_refl _)
  have read := ofDecimal_of_fraction (Nat.mul_ne_zero (Nat.ne_of_gt positive) nonzero) fraction
    (show places ≤ (units * factor).log2 / 3 + 331 by omega) false
  rw [readsAs, read, Nat.mul_assoc, unit, nearest_of_significant bounded significant ten]
  exact beq_self_eq_true units

theorem readsAs_exact {units : Nat} (positive : 0 < units) (bounded : units < overflow)
    (significant : Significant units) : readsAs ⟨units * Nat.pow 5 1074, -1074⟩ units = true :=
  readsAs_digits positive bounded significant (by decide) (by decide +kernel) (by decide +kernel)

theorem readsAs_firstNeighbour {units : Nat} (positive : 0 < units) (bounded : units < overflow)
    (significant : Significant units) (grids : Nat) (exponent : Int) :
    readsAs (firstNeighbour units grids exponent) units = true := by
  induction grids generalizing exponent with
  | zero => exact readsAs_exact positive bounded significant
  | succ grids ih =>
    unfold firstNeighbour
    split
    · rename_i found
      exact readsAs_of_neighbour? found
    · exact ih _

theorem readsAs_shortest {units : Nat} (positive : 0 < units) (bounded : units < overflow)
    (significant : Significant units) : readsAs (shortest units) units = true :=
  readsAs_firstNeighbour positive bounded significant _ _

end Binary64

theorem all_isDigit_toDigits (n : Nat) : (Nat.toDigits 10 n).all Char.isDigit = true :=
  List.all_eq_true.2 fun _ member =>
    Nat.isDigit_of_mem_toDigits (by decide) (by decide) member

theorem ofDigits_eq_ofDigitChars {digits : List Char} (inside : digits.all Char.isDigit = true) :
    ofDigits 10 digits = Nat.ofDigitChars 10 digits 0 := by
  induction digits using List.reverseRecOn with
  | nil => rfl
  | append_singleton digits c ih =>
    rw [List.all_append, List.all_cons, List.all_nil, Bool.and_true, Bool.and_eq_true] at inside
    rw [ofDigits_concat, ih inside.1, Nat.ofDigitChars_append, digitValue, if_pos inside.2,
      Nat.mul_comm]
    rfl

theorem ofDigits_toDigits (n : Nat) : ofDigits 10 (Nat.toDigits 10 n) = n := by
  rw [ofDigits_eq_ofDigitChars (all_isDigit_toDigits n)]
  exact Nat.ofDigitChars_toDigits (by decide) (by decide)

theorem all_isDigit_zeros (k : Nat) : (List.replicate k '0').all Char.isDigit = true :=
  List.all_eq_true.2 fun _ member => by
    rw [List.eq_of_mem_replicate member]
    rfl

theorem ofDigits_append_zeros (digits : List Char) (k : Nat) :
    ofDigits 10 (digits ++ List.replicate k '0') = ofDigits 10 digits * 10 ^ k := by
  induction k with
  | zero => simp
  | succ k ih =>
    rw [List.replicate_succ', ← List.append_assoc, ofDigits_concat, ih, Nat.pow_succ, Nat.mul_assoc]
    rfl

theorem ofDigits_zeros_append (k : Nat) (digits : List Char) :
    ofDigits 10 (List.replicate k '0' ++ digits) = ofDigits 10 digits := by
  have zeros : ofDigits 10 (List.replicate k '0') = 0 := by
    have appended := ofDigits_append_zeros [] k
    rwa [List.nil_append, show ofDigits 10 [] = 0 from rfl, Nat.zero_mul] at appended
  rw [ofDigits, List.foldl_append, ← ofDigits, zeros]
  rfl

/-- The digits of an integer, behind a minus if it is negative. -/
theorem toList_toString (z : Int) :
    (toString z).toList =
      if z < 0 then '-' :: Nat.toDigits 10 z.natAbs else Nat.toDigits 10 z.natAbs := by
  rw [Int.toString_eq_repr, Int.repr_eq_if]
  split
  · rename_i positive
    rw [if_neg (Int.not_lt.2 positive), Nat.toList_repr,
      show z.toNat = z.natAbs by omega]
  · rename_i negative
    rw [if_pos (Int.not_le.1 negative), String.toList_append, Nat.toList_repr,
      show (-z).toNat = z.natAbs by omega]
    rfl

namespace Decimal

/-- The decimal number is written without a point: it has one digit, and is large or small enough
for an exponent. -/
def IsBare (d : Decimal) : Prop :=
  d.digits < 10 ∧ ¬ (-4 ≤ d.exponent ∧ d.exponent < 16)

instance (d : Decimal) : Decidable d.IsBare :=
  inferInstanceAs (Decidable (_ ∧ _))

/-- The texts of a decimal number: digits on both sides of a point, with an exponent or without one,
that are read as the same real; or one digit with an exponent. -/
inductive Text (d : Decimal) : List Char → Prop
  | pointed {whole fraction tail : List Char} {e : Int} (notBare : ¬ d.IsBare)
      (filled : whole ≠ []) (insideWhole : whole.all Char.isDigit = true)
      (insideFraction : fraction.all Char.isDigit = true)
      (scaled : tail = [] ∧ e = 0 ∨ ExponentForm tail e)
      (same : ∀ negative, Binary64.ofDecimal negative (ofParts whole fraction e) =
        Binary64.ofDecimal negative d) : Text d (whole ++ '.' :: (fraction ++ tail))
  | bare {c : Char} {tail : List Char} {e : Int} (bare : d.IsBare) (digit : c.isDigit = true)
      (scaled : ExponentForm tail e) : Text d (c :: tail)

theorem length_toDigits_eq_one_iff (n : Nat) : (Nat.toDigits 10 n).length = 1 ↔ n < 10 := by
  have le := Nat.length_toDigits_le_iff (b := 10) (n := n) (k := 1) (by decide) (by decide)
  have pos := Nat.length_toDigits_pos (b := 10) (n := n)
  rw [Nat.pow_one] at le
  omega

/-- A zero is not looked at behind the digits that are already there. -/
theorem ofDecimal_append_zeros {digits e : Nat} (nonzero : digits ≠ 0) (small : e < 16)
    (negative : Bool) :
    Binary64.ofDecimal negative ⟨digits * 10 ^ (e + 1), -(1 : Nat)⟩ =
      Binary64.ofDecimal negative ⟨digits, e⟩ := by
  have grown : digits * 10 ^ (e + 1) ≠ 0 :=
    Nat.mul_ne_zero nonzero (Nat.ne_of_gt (Nat.pow_pos (by decide)))
  have scaled (unit : Nat) :
      digits * 10 ^ (e + 1) * unit = 10 * (digits * Nat.pow 10 e * unit) := by
    rw [Nat.pow_succ, Nat.pow_eq]
    ac_rfl
  rw [Binary64.ofDecimal_of_fraction grown (by decide) (by omega), scaled,
    Binary64.ofDecimal_of_whole (d := ⟨digits, e⟩) nonzero (Int.natCast_nonneg e)
      (by dsimp only; omega)]
  exact Binary64.nearest_scale (by decide) negative _ 1

theorem exponentForm_digits (sign : List Char) (negative : Bool)
    (signs : (sign, negative) ∈ [([], false), (['+'], false), (['-'], true)]) (n : Nat) :
    ExponentForm ('e' :: (sign ++ Nat.toDigits 10 n)) (if negative then -(n : Int) else n) := by
  have form := ExponentForm.mk (.inl (Eq.refl 'e')) signs Nat.toDigits_ne_nil
    (all_isDigit_toDigits n)
  rwa [ofDigits_toDigits] at form

theorem exponentForm_toString (place : Int) :
    ExponentForm ('e' :: (toString place).toList) place := by
  rw [toList_toString]
  split
  · rename_i negative
    have form := exponentForm_digits ['-'] true (by decide) place.natAbs
    rwa [if_pos rfl, Int.ofNat_natAbs_of_nonpos (Int.le_of_lt negative), Int.neg_neg] at form
  · rename_i positive
    have form := exponentForm_digits [] false (by decide) place.natAbs
    rwa [if_neg (by decide), Int.natAbs_of_nonneg (Int.not_lt.1 positive)] at form

theorem not_isBare_of_length {d : Decimal}
    (pointed : 1 < (Nat.toDigits 10 d.digits).length ∨ -4 ≤ d.exponent ∧ d.exponent < 16) :
    ¬ d.IsBare := by
  rintro ⟨one, outside⟩
  have single := (length_toDigits_eq_one_iff d.digits).2 one
  rcases pointed with several | inside
  · omega
  · exact outside inside

variable {d : Decimal} {digits : List Char}

/-- Digits around a point, with no exponent behind them. -/
theorem Text.plain {whole fraction : List Char} (notBare : ¬ d.IsBare) (filled : whole ≠ [])
    (insideWhole : whole.all Char.isDigit = true) (insideFraction : fraction.all Char.isDigit = true)
    (same : ∀ negative, Binary64.ofDecimal negative (ofParts whole fraction 0) =
      Binary64.ofDecimal negative d) : Text d (whole ++ '.' :: fraction) := by
  have form := Text.pointed notBare filled insideWhole insideFraction (.inl ⟨rfl, rfl⟩) same
  rwa [List.append_nil] at form

theorem ofParts_eq {whole fraction : List Char} {e : Int}
    (value : ofDigits 10 (whole ++ fraction) = d.digits)
    (exponent : e - fraction.length = d.exponent) : ofParts whole fraction e = d := by
  rw [ofParts, value, exponent]

/-- The digits of the number, and zeros up to the point. -/
theorem Text.of_whole (notBare : ¬ d.IsBare) (inside : digits.all Char.isDigit = true)
    (filled : digits ≠ []) (value : ofDigits 10 digits = d.digits) (nonzero : d.digits ≠ 0)
    (whole : 0 ≤ d.exponent) (small : d.exponent < 16) :
    Text d (digits ++ List.replicate d.exponent.toNat '0' ++ ['.', '0']) := by
  obtain ⟨number, exponent⟩ := d
  obtain ⟨e, rfl⟩ := Int.eq_ofNat_of_zero_le whole
  dsimp only at value nonzero small ⊢
  have grown : ofDigits 10 (digits ++ List.replicate e '0' ++ ['0']) = number * 10 ^ (e + 1) := by
    rw [List.append_assoc, ← List.replicate_succ', ofDigits_append_zeros, value]
  have parts : ofParts (digits ++ List.replicate e '0') ['0'] 0 =
      ⟨number * 10 ^ (e + 1), -(1 : Nat)⟩ := by
    rw [ofParts, grown]
    rfl
  refine .plain notBare ?_ ?_ rfl ?_
  · exact List.append_ne_nil_of_left_ne_nil filled _
  · rw [List.all_append, inside]
    exact all_isDigit_zeros _
  · intro negative
    rw [Int.toNat_natCast, parts]
    exact ofDecimal_append_zeros nonzero (by omega) negative

/-- The point stands among the digits of the number. -/
theorem Text.of_split (notBare : ¬ d.IsBare) (inside : digits.all Char.isDigit = true)
    (value : ofDigits 10 digits = d.digits) {places : Nat} (exponent : d.exponent = -places)
    (short : places < digits.length) :
    Text d (digits.take (digits.length - places) ++
      '.' :: digits.drop (digits.length - places)) := by
  have parts := List.take_append_drop (digits.length - places) digits
  have filled : digits.take (digits.length - places) ≠ [] := by
    rw [← List.length_pos_iff, List.length_take]
    omega
  have same : ofParts (digits.take (digits.length - places))
      (digits.drop (digits.length - places)) 0 = d :=
    ofParts_eq (by rw [parts, value]) (by rw [List.length_drop]; omega)
  rw [← parts, List.all_append, Bool.and_eq_true] at inside
  exact .plain notBare filled inside.1 inside.2 fun negative => by rw [same]

/-- The point stands before the digits of the number, with zeros between. -/
theorem Text.of_small (notBare : ¬ d.IsBare) (inside : digits.all Char.isDigit = true)
    (value : ofDigits 10 digits = d.digits) {places : Nat} (exponent : d.exponent = -places)
    (long : digits.length ≤ places) :
    Text d ('0' :: '.' :: List.replicate (places - digits.length) '0' ++ digits) := by
  have insideFraction : (List.replicate (places - digits.length) '0' ++ digits).all Char.isDigit =
      true := by
    rw [List.all_append, all_isDigit_zeros, inside]
    rfl
  have same : ofParts ['0'] (List.replicate (places - digits.length) '0' ++ digits) 0 = d := by
    apply ofParts_eq
    · rw [← List.append_assoc, List.singleton_append, ← List.replicate_succ, ofDigits_zeros_append,
        value]
    · rw [List.length_append, List.length_replicate]
      omega
  have form := Text.plain notBare (List.cons_ne_nil '0' []) rfl insideFraction
    fun negative => by rw [same]
  exact form

theorem text_positional (nonzero : d.digits ≠ 0)
    (lower : -4 ≤ d.exponent + (Nat.toDigits 10 d.digits).length - 1)
    (upper : d.exponent + (Nat.toDigits 10 d.digits).length - 1 < 16) :
    Text d (positional (Nat.toDigits 10 d.digits) d.exponent) := by
  have value := ofDigits_toDigits d.digits
  have inside := all_isDigit_toDigits d.digits
  have filled := Nat.length_toDigits_pos (b := 10) (n := d.digits)
  have notBare : ¬ d.IsBare := not_isBare_of_length (by omega)
  -- From here on the digits matter only by their number and by what they denote.
  generalize Nat.toDigits 10 d.digits = digits at *
  unfold positional
  split
  · rename_i whole
    exact .of_whole notBare inside (List.length_pos_iff.1 filled) value nonzero whole (by omega)
  · rename_i negative
    have exponent : d.exponent = -((-d.exponent).toNat : Nat) := by omega
    dsimp only
    split
    · rename_i short
      exact .of_split notBare inside value exponent short
    · rename_i long
      exact .of_small notBare inside value exponent (Nat.le_of_not_lt long)

theorem text_scientific
    (outside : ¬ (-4 ≤ d.exponent + (Nat.toDigits 10 d.digits).length - 1 ∧
      d.exponent + (Nat.toDigits 10 d.digits).length - 1 < 16)) :
    Text d (scientific (Nat.toDigits 10 d.digits) d.exponent) := by
  have single := length_toDigits_eq_one_iff d.digits
  have value := ofDigits_toDigits d.digits
  have inside := all_isDigit_toDigits d.digits
  have filled := Nat.length_toDigits_pos (b := 10) (n := d.digits)
  have pointed := not_isBare_of_length (d := d)
  have scaled := exponentForm_toString (d.exponent + (Nat.toDigits 10 d.digits).length - 1)
  generalize Nat.toDigits 10 d.digits = digits at *
  match digits with
  | [] => cases filled
  | [c] =>
    have bare : d.IsBare := by
      refine ⟨single.1 rfl, fun within => outside ?_⟩
      rw [List.length_singleton]
      omega
    rw [List.all_cons, Bool.and_eq_true] at inside
    exact .bare bare inside.1 scaled
  | first :: second :: more =>
    have notBare : ¬ d.IsBare := pointed (.inl (by rw [List.length_cons, List.length_cons]; omega))
    rw [List.all_cons, Bool.and_eq_true] at inside
    have same : ofParts [first] (second :: more)
        (d.exponent + (first :: second :: more).length - 1) = d :=
      ofParts_eq value (by rw [List.length_cons]; omega)
    exact .pointed notBare (List.cons_ne_nil first []) (by rw [List.all_cons, inside.1]; rfl)
      inside.2 (.inr scaled) fun negative => by rw [same]

/-- A decimal number that is not zero is written in one of the forms. -/
theorem text_toText (nonzero : d.digits ≠ 0) : Text d d.toText := by
  unfold toText
  dsimp only
  split
  · rename_i within
    exact text_positional nonzero within.1 within.2
  · rename_i outside
    exact text_scientific outside

end Decimal

theorem isBlank_of_isDigit {c : Char} (digit : c.isDigit = true) : isBlank c = false :=
  isBlank_of_isWordChar (isWordChar_of_isDigit digit)

theorem ExponentForm.mem {text : List Char} {e : Int} (form : ExponentForm text e) {c : Char}
    (member : c ∈ text) : c.isDigit = true ∨ c ∈ ['e', 'E', '+', '-'] := by
  cases form with
  | @mk mark sign digits negative marks signs filled inside =>
    have signed : ∀ c ∈ sign, c ∈ ['e', 'E', '+', '-'] := by
      simp only [List.mem_cons, Prod.mk.injEq, List.not_mem_nil, or_false] at signs
      rcases signs with ⟨rfl, -⟩ | ⟨rfl, -⟩ | ⟨rfl, -⟩ <;> simp
    rcases List.mem_cons.1 member with rfl | member
    · rcases marks with rfl | rfl <;> exact .inr (by decide)
    rcases List.mem_append.1 member with inSign | inDigits
    · exact .inr (signed c inSign)
    · exact .inl (List.all_eq_true.1 inside c inDigits)

namespace Decimal

/-- Digits around a point, and what stands behind them. -/
theorem splitPoint_pointed {whole fraction rest : List Char}
    (insideWhole : whole.all Char.isDigit = true) (insideFraction : fraction.all Char.isDigit = true)
    (stops : ∀ c ∈ rest.head?, c.isDigit = false) :
    splitPoint (whole ++ '.' :: (fraction ++ rest)) = (whole, fraction, rest) := by
  have point : ∀ c ∈ ('.' :: (fraction ++ rest)).head?, c.isDigit = false := by
    rintro _ ⟨⟩
    rfl
  simp only [splitPoint, splitRun_run_append insideWhole point,
    splitRun_run_append insideFraction stops]

theorem ofText?_pointed {whole fraction tail : List Char} {e : Int} (filled : whole ≠ [])
    (insideWhole : whole.all Char.isDigit = true) (insideFraction : fraction.all Char.isDigit = true)
    (scaled : tail = [] ∧ e = 0 ∨ ExponentForm tail e) :
    ofText? (whole ++ '.' :: (fraction ++ tail)) = some (ofParts whole fraction e) := by
  rcases scaled with ⟨rfl, rfl⟩ | scaled
  · have parts : splitPoint (whole ++ '.' :: (fraction ++ [])) = (whole, fraction, []) :=
      splitPoint_pointed insideWhole insideFraction nofun
    simp only [ofText?, parts, if_neg (not_and_of_not_left _ filled), if_true]
  · have read := scaled.exponent? atGap_nil
    obtain ⟨mark, others, rfl, marks⟩ := scaled.exists_cons
    have noDigit : ∀ c ∈ (mark :: others).head?, c.isDigit = false := by
      rintro _ ⟨⟩
      rcases marks with rfl | rfl <;> decide
    rw [List.append_nil] at read
    simp only [ofText?, splitPoint_pointed insideWhole insideFraction noDigit,
      if_neg (not_and_of_not_left _ filled), if_neg (List.cons_ne_nil _ _), read]

namespace Text

variable {d : Decimal} {text : List Char} (form : Text d text)

include form

/-- A text with a point is read as a decimal number of the same real. -/
theorem reads (notBare : ¬ d.IsBare) :
    ∃ read, ofText? text = some read ∧
      ∀ negative, Binary64.ofDecimal negative read = Binary64.ofDecimal negative d := by
  cases form with
  | pointed _ filled insideWhole insideFraction scaled same =>
    exact ⟨_, ofText?_pointed filled insideWhole insideFraction scaled, same⟩
  | bare bare => exact absurd bare notBare

theorem point_mem_iff : '.' ∈ text ↔ ¬ d.IsBare := by
  cases form with
  | pointed notBare =>
    exact iff_of_true (List.mem_append_right _ List.mem_cons_self) notBare
  | bare bare digit scaled =>
    refine iff_of_false ?_ (not_not_intro bare)
    intro member
    rcases List.mem_cons.1 member with rfl | member
    · cases digit
    · rcases scaled.mem member with digit | other
      · cases digit
      · exact absurd other (by decide)

theorem exists_cons : ∃ c rest, text = c :: rest ∧ c.isDigit = true := by
  cases form with
  | @pointed whole _ _ _ _ filled insideWhole =>
    obtain ⟨c, rest, rfl⟩ := List.exists_cons_of_ne_nil filled
    rw [List.all_cons, Bool.and_eq_true] at insideWhole
    exact ⟨c, _, rfl, insideWhole.1⟩
  | bare _ digit => exact ⟨_, _, rfl, digit⟩

theorem mem {c : Char} (member : c ∈ text) :
    c.isDigit = true ∨ c ∈ ['.', 'e', 'E', '+', '-'] := by
  cases form with
  | pointed _ _ insideWhole insideFraction scaled =>
    simp only [List.mem_append, List.mem_cons] at member
    rcases member with inWhole | rfl | inFraction | inTail
    · exact .inl (List.all_eq_true.1 insideWhole c inWhole)
    · exact .inr (by decide)
    · exact .inl (List.all_eq_true.1 insideFraction c inFraction)
    · rcases scaled with ⟨rfl, -⟩ | scaled
      · cases inTail
      · exact (scaled.mem inTail).imp_right (List.mem_cons_of_mem _)
  | bare _ digit scaled =>
    rcases List.mem_cons.1 member with rfl | inTail
    · exact .inl digit
    · exact (scaled.mem inTail).imp_right (List.mem_cons_of_mem _)

/-- A text without a point has an exponent, so it is no whole number either. -/
theorem not_all_isDigit : text.all Char.isDigit = false := by
  cases form with
  | pointed => simp
  | bare _ _ scaled =>
    obtain ⟨mark, others, rfl, marks⟩ := scaled.exists_cons
    rcases marks with rfl | rfl <;> simp

end Text

end Decimal

namespace Binary64

/-- The decimal number that a finite real is written as. -/
def written (units : Nat) : Decimal :=
  if units = 0 then ⟨0, 0⟩ else shortest units

/-- The real is written without a point: it is not finite, or its shortest digits are one digit with
an exponent. -/
def IsBare : Binary64 → Prop
  | .nan | .infinite _ => True
  | .finite _ units _ _ => (written units).IsBare

instance : DecidablePred IsBare
  | .nan | .infinite _ => inferInstanceAs (Decidable True)
  | .finite _ units _ _ => inferInstanceAs (Decidable (written units).IsBare)

/-- A finite real is the one that is read from the digits it is written in. -/
theorem ofDecimal_written {units : Nat} (bounded : units < overflow)
    (significant : Significant units) (negative : Bool) :
    ofDecimal negative (written units) = .finite negative units bounded significant := by
  unfold written
  split
  · rename_i zero
    subst zero
    rfl
  · rename_i nonzero
    have reads := readsAs_shortest (Nat.pos_of_ne_zero nonzero) bounded significant
    exact ofDecimal_of_readsAs reads bounded significant negative

theorem digits_shortest_ne_zero {units : Nat} (positive : 0 < units) (bounded : units < overflow)
    (significant : Significant units) : (shortest units).digits ≠ 0 := by
  intro none
  have reads := readsAs_shortest positive bounded significant
  rw [readsAs, ofDecimal, if_pos none] at reads
  exact Nat.ne_of_lt positive (beq_iff_eq.1 reads)

/-- The text of a magnitude is one of the forms of its digits. -/
theorem text_magnitude {units : Nat} (bounded : units < overflow) (significant : Significant units) :
    Decimal.Text (written units)
      (if units = 0 then ['0', '.', '0'] else (shortest units).toText) := by
  unfold written
  split
  · exact .plain (by decide) (List.cons_ne_nil '0' []) rfl rfl fun _ =>
      (ofDecimal_of_zero rfl _).trans (ofDecimal_of_zero rfl _).symm
  · rename_i nonzero
    exact Decimal.text_toText
      (digits_shortest_ne_zero (Nat.pos_of_ne_zero nonzero) bounded significant)

theorem toList_toText (negative : Bool) {units : Nat} (bounded : units < overflow)
    (significant : Significant units) :
    ∃ magnitude, Decimal.Text (written units) magnitude ∧
      (toText (.finite negative units bounded significant)).toList =
        if negative then '-' :: magnitude else magnitude :=
  ⟨_, text_magnitude bounded significant, String.toList_ofList⟩

/-- The sign in front of digits is split off again. -/
theorem splitSign_signed {d : Decimal} {magnitude : List Char} (form : Decimal.Text d magnitude)
    (negative : Bool) :
    splitSign (if negative then '-' :: magnitude else magnitude) = (negative, magnitude) := by
  cases negative with
  | true => rfl
  | false =>
    obtain ⟨c, rest, rfl, digit⟩ := form.exists_cons
    exact splitSign_digits (List.cons_ne_nil c [])
      (by rw [List.all_cons, digit]; rfl)

/-- A real that is written with a point is read back. -/
theorem ofNumeral?_toText {r : Binary64} (pointed : ¬ r.IsBare) :
    ofNumeral? r.toText.toList = some r := by
  cases r with
  | nan | infinite => exact absurd trivial pointed
  | finite negative units bounded significant =>
    obtain ⟨magnitude, form, text⟩ := toList_toText negative bounded significant
    obtain ⟨read, found, same⟩ := form.reads pointed
    rw [text, ofNumeral?, splitSign_signed form]
    dsimp only
    rw [found, Option.map_some, same, ofDecimal_written bounded significant]

theorem point_mem_toText_iff (r : Binary64) : '.' ∈ r.toText.toList ↔ ¬ r.IsBare := by
  cases r with
  | nan => exact iff_of_false (by decide) (not_not_intro trivial)
  | infinite negative =>
    exact iff_of_false (by cases negative <;> decide) (not_not_intro trivial)
  | finite negative units bounded significant =>
    obtain ⟨magnitude, form, text⟩ := toList_toText negative bounded significant
    rw [text, IsBare, ← form.point_mem_iff]
    cases negative <;> simp

theorem isBlank_toText (r : Binary64) : ∀ c ∈ r.toText.toList, isBlank c = false := by
  cases r with
  | nan => exact forall_mem_of_all (by decide)
  | infinite negative => cases negative <;> exact forall_mem_of_all (by decide)
  | finite negative units bounded significant =>
    obtain ⟨magnitude, form, text⟩ := toList_toText negative bounded significant
    have others : ∀ c ∈ ['.', 'e', 'E', '+', '-'], isBlank c = false :=
      forall_mem_of_all (by decide)
    have inside : ∀ c ∈ magnitude, isBlank c = false := fun c member =>
      (form.mem member).elim isBlank_of_isDigit (others c)
    rw [text]
    cases negative with
    | false => exact inside
    | true => exact List.forall_mem_cons.2 ⟨by decide, inside⟩

/-- The text of a real is no integer. -/
theorem integer?_toText (r : Binary64) : integer? r.toText.toList = none := by
  cases r with
  | nan => decide
  | infinite negative => cases negative <;> decide
  | finite negative units bounded significant =>
    obtain ⟨magnitude, form, text⟩ := toList_toText negative bounded significant
    rw [text, integer?, splitSign_signed form]
    dsimp only
    rw [form.not_all_isDigit, if_neg (by simp)]

end Binary64

end GotoLang
