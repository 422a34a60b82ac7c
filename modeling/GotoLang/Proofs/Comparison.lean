import GotoLang.Value.Operator
import Mathlib.Logic.ExistsUnique

set_option autoImplicit false

namespace GotoLang

namespace Binary64

variable {a b : Binary64}

theorem position?_eq_none_iff : a.position? = none ↔ a = .nan := by
  cases a <;> simp [position?]

theorem compare?_eq_none_iff : a.compare? b = none ↔ a = .nan ∨ b = .nan := by
  rw [← position?_eq_none_iff, ← position?_eq_none_iff (a := b)]
  unfold compare?
  cases a.position? <;> cases b.position? <;> simp

theorem compare?_swap (a b : Binary64) : (a.compare? b).map Ordering.swap = b.compare? a := by
  unfold compare?
  cases a.position? with
  | none => cases b.position? <;> rfl
  | some p =>
    cases b.position? with
    | none => rfl
    | some q => exact congrArg some (Std.OrientedCmp.eq_swap (a := q) (b := p)).symm

theorem compare?_self (number : a ≠ .nan) : a.compare? a = some .eq := by
  unfold compare?
  cases found : a.position? with
  | none => exact absurd (position?_eq_none_iff.1 found) number
  | some p => exact congrArg some Std.ReflCmp.compare_self

theorem same_comm (a b : Binary64) : a.same b = b.same a := by
  unfold same
  rw [← compare?_swap a b]
  cases a.compare? b with
  | none => rfl
  | some order => cases order <;> rfl

theorem nearest_ne_nan (negative : Bool) (num den : Nat) : nearest negative num den ≠ .nan := by
  unfold nearest
  dsimp only
  split <;> nofun

theorem ofInt_ne_nan (n : Int) : ofInt n ≠ .nan := by
  rw [ofInt_eq, ofUnits]
  exact nearest_ne_nan _ _ _

end Binary64

namespace Value

variable {a b : Value}

theorem number?_of_isNumber (number : a.isNumber = true) : ∃ r, a.number? = some r := by
  rw [← Option.isSome_iff_exists, isSome_number?, number]

/-- How two values compare as numbers: integers exactly, and otherwise as reals. -/
def order? (a b : Value) : Option Ordering :=
  match a, b with
  | integer a, integer b => some (compare a.toInt b.toInt)
  | a, b => a.number?.bind fun p => b.number?.bind fun q => p.compare? q

theorem order?_swap (a b : Value) : (a.order? b).map Ordering.swap = b.order? a := by
  cases a <;> cases b <;>
    simp only [order?, number?, Option.bind_some, Option.bind_none, Option.map_some,
      Option.map_none, Binary64.compare?_swap, ← Std.OrientedCmp.eq_swap]

theorem order?_eq_some_swap {o : Ordering} :
    b.order? a = some o ↔ a.order? b = some o.swap := by
  rw [← order?_swap a b]
  cases a.order? b with
  | none => simp
  | some found => cases found <;> cases o <;> simp [Ordering.swap]

theorem order?_eq_none_iff (left : a.isNumber = true) (right : b.isNumber = true) :
    a.order? b = none ↔ a = .real .nan ∨ b = .real .nan := by
  cases a <;> cases b <;>
    simp_all [order?, number?, isNumber, Binary64.compare?_eq_none_iff, Binary64.ofInt_ne_nan]

/-- Two numbers are equal if they stand in the order of equals. -/
theorem same_iff_order? (left : a.isNumber = true) (right : b.isNumber = true) :
    a.same b = true ↔ a.order? b = some .eq := by
  cases a <;> cases b <;>
    simp_all [order?, number?, isNumber, same, Binary64.same, Int64.toInt_inj]

end Value

namespace BinaryOperator

variable {a b : Value}

/-- The order of two numbers does not depend on the operator that asks for it. -/
theorem order_eq_order? (op : BinaryOperator) (left : a.isNumber = true)
    (right : b.isNumber = true) : order op a b = .ok (a.order? b) := by
  obtain ⟨p, foundLeft⟩ := Value.number?_of_isNumber left
  obtain ⟨q, foundRight⟩ := Value.number?_of_isNumber right
  have promoted := reals_of_numbers op foundLeft foundRight
  cases a <;> cases b <;>
    simp only [order, Value.order?, promoted, foundLeft, foundRight, Option.bind_some] <;> rfl

def Holds (op : BinaryOperator) (a b : Value) : Prop :=
  op.apply a b = .ok (.boolean true)

theorem comparison_eq (op : BinaryOperator) (accepts : Ordering → Bool) (left : a.isNumber = true)
    (right : b.isNumber = true) :
    comparison op accepts a b = .ok (.boolean ((a.order? b).any accepts)) := by
  rw [comparison, order_eq_order? op left right]
  rfl

theorem holds_comparison_iff (op : BinaryOperator) (accepts : Ordering → Bool)
    (left : a.isNumber = true) (right : b.isNumber = true) :
    comparison op accepts a b = .ok (.boolean true) ↔
      ∃ order, a.order? b = some order ∧ accepts order = true := by
  rw [comparison_eq op accepts left right, Except.ok.injEq, Value.boolean.injEq,
    Option.any_eq_true]

theorem less_holds_iff (left : a.isNumber = true) (right : b.isNumber = true) :
    less.Holds a b ↔ a.order? b = some .lt := by
  refine (holds_comparison_iff less _ left right).trans ?_
  simp [Ordering.isLT_iff_eq_lt]

theorem greater_holds_iff (left : a.isNumber = true) (right : b.isNumber = true) :
    greater.Holds a b ↔ a.order? b = some .gt := by
  refine (holds_comparison_iff greater _ left right).trans ?_
  simp [Ordering.isGT_iff_eq_gt]

theorem lessEqual_holds_iff (left : a.isNumber = true) (right : b.isNumber = true) :
    lessEqual.Holds a b ↔ a.order? b = some .lt ∨ a.order? b = some .eq := by
  refine (holds_comparison_iff lessEqual _ left right).trans ?_
  simp [Ordering.isLE_iff_eq_lt_or_eq_eq, and_or_left, exists_or]

theorem greaterEqual_holds_iff (left : a.isNumber = true) (right : b.isNumber = true) :
    greaterEqual.Holds a b ↔ a.order? b = some .gt ∨ a.order? b = some .eq := by
  refine (holds_comparison_iff greaterEqual _ left right).trans ?_
  simp [Ordering.isGE_iff_eq_gt_or_eq_eq, and_or_left, exists_or]

theorem equal_holds_iff : equal.Holds a b ↔ a.same b = true := by
  simp [Holds, apply]

theorem notEqual_holds_iff : notEqual.Holds a b ↔ ¬ equal.Holds a b := by
  simp [Holds, apply]

end BinaryOperator

namespace Value

/-- Induction over the tree of a value. -/
@[elab_as_elim]
theorem treeInduction {motive : Value → Prop} (integer : ∀ n, motive (.integer n))
    (real : ∀ r, motive (.real r)) (text : ∀ s, motive (.text s))
    (boolean : ∀ b, motive (.boolean b))
    (vector : ∀ elements, (∀ v ∈ elements, motive v) → motive (.vector elements)) (value : Value) :
    motive value :=
  @Value.rec motive (fun elements => ∀ v ∈ elements, motive v) integer real text boolean vector
    (fun _ member => absurd member List.not_mem_nil)
    (fun _ _ first rest => List.forall_mem_cons.2 ⟨first, rest⟩) value

inductive HasNan : Value → Prop
  | here : HasNan (.real .nan)
  | inside {elements : List Value} {v : Value} (member : v ∈ elements) (has : v.HasNan) :
      HasNan (.vector elements)

@[simp] theorem not_hasNan_integer (n : Int64) : ¬ (integer n).HasNan := nofun

@[simp] theorem hasNan_real (r : Binary64) : (real r).HasNan ↔ r = .nan := by
  constructor
  · rintro ⟨⟩
    rfl
  · rintro rfl
    exact .here

@[simp] theorem hasNan_vector (elements : List Value) :
    (vector elements).HasNan ↔ ∃ v ∈ elements, v.HasNan := by
  constructor
  · rintro (_ | ⟨member, has⟩)
    exact ⟨_, member, has⟩
  · rintro ⟨v, member, has⟩
    exact .inside member has

theorem sameAll_comm {elements : List Value} (each : ∀ v ∈ elements, ∀ w, v.same w = w.same v)
    (others : List Value) : sameAll elements others = sameAll others elements := by
  induction elements generalizing others with
  | nil => cases others <;> rfl
  | cons v rest ih =>
    cases others with
    | nil => rfl
    | cons w others =>
      obtain ⟨first, later⟩ := List.forall_mem_cons.1 each
      simp only [sameAll, first w, ih later others]

theorem same_comm (a b : Value) : a.same b = b.same a := by
  induction a using treeInduction generalizing b with
  | integer n => cases b <;> simp [same, Bool.beq_comm, Binary64.same_comm]
  | real r => cases b <;> simp [same, Binary64.same_comm]
  | text s => cases b <;> simp [same, Bool.beq_comm]
  | boolean truth => cases b <;> simp [same, Bool.beq_comm]
  | vector elements each =>
    cases b with
    | vector others =>
      simp only [same]
      exact sameAll_comm each others
    | integer | real | text | boolean => rfl

theorem sameAll_self {elements : List Value} (each : ∀ v ∈ elements, v.same v = true) :
    sameAll elements elements = true := by
  induction elements with
  | nil => rfl
  | cons v rest ih =>
    obtain ⟨first, later⟩ := List.forall_mem_cons.1 each
    simp only [sameAll, first, ih later, Bool.and_self]

theorem same_self {a : Value} (clean : ¬ a.HasNan) : a.same a = true := by
  induction a using treeInduction with
  | integer n => simp [same]
  | real r =>
    have number : r ≠ .nan := mt (hasNan_real r).2 clean
    simp [same, Binary64.same, Binary64.compare?_self number]
  | text s => simp [same]
  | boolean truth => simp [same]
  | vector elements each =>
    simp only [same]
    exact sameAll_self fun v member => each v member fun has => clean (.inside member has)

end Value

namespace BinaryOperator

/-- The comparisons of two values are those of two places in one order, if they have places in it at
all. -/
structure Coherent (a b : Value) : Prop where
  decided : ∀ op : BinaryOperator, op.level = .relational →
    ∃ truth, op.apply a b = .ok (.boolean truth)
  lessEqual_iff : lessEqual.Holds a b ↔ less.Holds a b ∨ equal.Holds a b
  greaterEqual_iff : greaterEqual.Holds a b ↔ greater.Holds a b ∨ equal.Holds a b
  less_swap : less.Holds a b ↔ greater.Holds b a
  lessEqual_swap : lessEqual.Holds a b ↔ greaterEqual.Holds b a
  notEqual_iff : notEqual.Holds a b ↔ ¬ equal.Holds a b
  exactly_one : a ≠ .real .nan → b ≠ .real .nan →
    ∃! op, op ∈ [less, equal, greater] ∧ op.Holds a b
  nan : a = .real .nan ∨ b = .real .nan →
    ∀ op : BinaryOperator, op.level = .relational → (op.Holds a b ↔ op = notEqual)

variable {a b : Value}

theorem decided_of_numbers (left : a.isNumber = true) (right : b.isNumber = true)
    {op : BinaryOperator} (relational : op.level = .relational) :
    ∃ truth, op.apply a b = .ok (.boolean truth) := by
  cases op with
  | add | sub | mul | div | mod => cases relational
  | equal | notEqual => exact ⟨_, rfl⟩
  | less | lessEqual | greater | greaterEqual => exact ⟨_, comparison_eq _ _ left right⟩

theorem equal_holds_iff_order? (left : a.isNumber = true) (right : b.isNumber = true) :
    equal.Holds a b ↔ a.order? b = some .eq :=
  equal_holds_iff.trans (Value.same_iff_order? left right)

/-- Numbers that stand in an order stand in exactly one. -/
theorem exactly_one_of_order (left : a.isNumber = true) (right : b.isNumber = true)
    {order : Ordering} (found : a.order? b = some order) :
    ∃! op, op ∈ [less, equal, greater] ∧ op.Holds a b := by
  have lt := less_holds_iff left right
  have eq := equal_holds_iff_order? left right
  have gt := greater_holds_iff left right
  rw [found, Option.some.injEq] at lt eq gt
  cases order with
  | lt => exact ⟨less, by simp [lt], by simp [eq, gt]⟩
  | eq => exact ⟨equal, by simp [eq], by simp [lt, gt]⟩
  | gt => exact ⟨greater, by simp [gt], by simp [lt, eq]⟩

theorem coherent_of_numbers (left : a.isNumber = true) (right : b.isNumber = true) :
    Coherent a b := by
  constructor
  case decided => exact fun op relational => decided_of_numbers left right relational
  case lessEqual_iff =>
    rw [lessEqual_holds_iff left right, less_holds_iff left right, equal_holds_iff_order? left right]
  case greaterEqual_iff =>
    rw [greaterEqual_holds_iff left right, greater_holds_iff left right,
      equal_holds_iff_order? left right]
  case less_swap =>
    rw [less_holds_iff left right, greater_holds_iff right left, Value.order?_eq_some_swap]
    rfl
  case lessEqual_swap =>
    rw [lessEqual_holds_iff left right, greaterEqual_holds_iff right left,
      Value.order?_eq_some_swap, Value.order?_eq_some_swap (o := .eq)]
    rfl
  case notEqual_iff => exact notEqual_holds_iff
  case exactly_one =>
    intro leftNumber rightNumber
    cases found : a.order? b with
    | none =>
      rcases (Value.order?_eq_none_iff left right).1 found with none | none
      · exact absurd none leftNumber
      · exact absurd none rightNumber
    | some order => exact exactly_one_of_order left right found
  case nan =>
    intro undefined op relational
    have nowhere := (Value.order?_eq_none_iff left right).2 undefined
    have different : ¬ equal.Holds a b := by simp [equal_holds_iff_order? left right, nowhere]
    cases op with
    | add | sub | mul | div | mod => cases relational
    | equal => simp [different]
    | notEqual => simp [notEqual_holds_iff, different]
    | less => simp [less_holds_iff left right, nowhere]
    | greater => simp [greater_holds_iff left right, nowhere]
    | lessEqual => simp [lessEqual_holds_iff left right, nowhere]
    | greaterEqual => simp [greaterEqual_holds_iff left right, nowhere]

/-- On numbers the six comparisons are those of one order: each pair of them is related as its
spelling says, exactly one of `<`, `=` and `>` holds where there is no `nan`, and with a `nan` only
`<>` holds. On all values equality is symmetric, and a value without `nan` equals itself. -/
theorem comparisons_coherent (a b : Value) :
    (a.isNumber = true → b.isNumber = true → Coherent a b) ∧
      (equal.Holds a b ↔ equal.Holds b a) ∧ (¬ a.HasNan → equal.Holds a a) := by
  refine ⟨coherent_of_numbers, ?_, ?_⟩
  · rw [equal_holds_iff, equal_holds_iff, Value.same_comm]
  · intro clean
    exact equal_holds_iff.2 (Value.same_self clean)

/-- An integer that is rounded when it is compared with a real, and vectors that hold both. -/
theorem comparisons_coherent_of_rounded :
    ∃ n r v w : Value, n = .integer 9007199254740993 ∧ r = .real (.ofInt 9007199254740992) ∧
      v = .vector [n, .vector [r]] ∧ w = .vector [r, .vector [n]] ∧
      n.isNumber = true ∧ r.isNumber = true ∧ ¬ v.HasNan ∧
      Coherent n r ∧ (equal.Holds v w ↔ equal.Holds w v) ∧ equal.Holds v v := by
  let n : Value := .integer 9007199254740993
  let r : Value := .real (.ofInt 9007199254740992)
  let v : Value := .vector [n, .vector [r]]
  let w : Value := .vector [r, .vector [n]]
  have clean : ¬ v.HasNan := by simp [v, n, r, Binary64.ofInt_ne_nan]
  exact ⟨n, r, v, w, rfl, rfl, rfl, rfl, rfl, rfl, clean,
    (comparisons_coherent n r).1 rfl rfl, (comparisons_coherent v w).2.1,
    (comparisons_coherent v v).2.2 clean⟩

end BinaryOperator

end GotoLang
