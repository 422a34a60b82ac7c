import GotoLang.Proofs.ReadWrite

set_option autoImplicit false

namespace GotoLang

namespace Environment

variable {env next : Environment} {name : String}

/-- The elements of a variable that holds a vector, and the place among them that an index
denotes. -/
def slot (env : Environment) (name : String) (index : Value) :
    Except RuntimeFault (Σ elements : List Value, Fin elements.length) := do
  let elements ← env.elements name
  let place ← position name elements.length index
  return ⟨elements, place⟩

/-- An element is read out of its slot. -/
theorem element_eq_slot (env : Environment) (name : String) (index : Value) :
    env.element name index = (env.slot name index).map fun ⟨elements, place⟩ =>
      elements.get place := by
  unfold element slot
  cases env.elements name with
  | error fault => rfl
  | ok elements =>
    simp only [bind, Except.bind]
    cases position name elements.length index <;> rfl

/-- A value is stored into the slot of an element. -/
theorem assignElement_eq_slot (env : Environment) (name : String) (index value : Value) :
    env.assignElement name index value = (env.slot name index).map fun ⟨elements, place⟩ =>
      env.declare name (.vector (elements.set place value)) := by
  unfold assignElement slot
  cases env.elements name with
  | error fault => rfl
  | ok elements =>
    simp only [bind, Except.bind]
    cases position name elements.length index <;> rfl

theorem find?_of_elements {elements : List Value} (found : env.elements name = .ok elements) :
    env.find? name = some (.vector elements) := by
  unfold Environment.elements get at found
  cases held : env.find? name with
  | none =>
    rw [held] at found
    cases found
  | some value =>
    rw [held] at found
    cases value with
    | vector => cases found; rfl
    | integer | real | text | boolean => cases found

theorem toInt_eq_of_position {length : Nat} {index : Value} {place : Fin length}
    (found : position name length index = .ok place) :
    ∃ p : Int64, index = .integer p ∧ p.toInt = place := by
  cases index with
  | integer p =>
    refine ⟨p, rfl, ?_⟩
    simp only [position, Value.toInteger, bind, Except.bind] at found
    split at found
    · rename_i inside
      cases found
      exact (Int.toNat_of_nonneg inside.1).symm
    · cases found
  | real | text | boolean | vector => cases found

/-- A slot is one of a variable that holds a vector, at an integer that counts its elements. -/
theorem of_slot {index : Value} {elements : List Value} {place : Fin elements.length}
    (found : env.slot name index = .ok ⟨elements, place⟩) :
    env.find? name = some (.vector elements) ∧
      ∃ p : Int64, index = .integer p ∧ p.toInt = place := by
  unfold slot at found
  cases all : env.elements name with
  | error fault =>
    rw [all] at found
    cases found
  | ok others =>
    rw [all] at found
    simp only [bind, Except.bind] at found
    cases placed : position name others.length index with
    | error fault =>
      rw [placed] at found
      cases found
    | ok other =>
      rw [placed] at found
      cases found
      exact ⟨find?_of_elements all, toInt_eq_of_position placed⟩

/-- The element at an integer, if that counts the elements of the vector from zero. -/
theorem element_of_vector {elements : List Value} (held : env.find? name = some (.vector elements))
    (q : Int64) :
    env.element name (.integer q) =
      match if 0 ≤ q.toInt then elements[q.toInt.toNat]? else none with
      | some value => .ok value
      | none => .error (.indexOutOfBounds name q elements.length) := by
  have all : env.elements name = .ok elements := by
    rw [Environment.elements, get, held]
    rfl
  rw [element, all]
  simp only [bind, Except.bind, position, Value.toInteger]
  by_cases inside : 0 ≤ q.toInt ∧ q.toInt.toNat < elements.length
  · rw [dif_pos inside, if_pos inside.1, List.getElem?_eq_getElem inside.2]
    rfl
  · have nothing : (if 0 ≤ q.toInt then elements[q.toInt.toNat]? else none) = none := by
      split
      · rename_i positive
        exact List.getElem?_eq_none (Nat.le_of_not_lt fun small => inside ⟨positive, small⟩)
      · rfl
    rw [dif_neg inside, nothing]
    rfl

theorem map_fst_put {pairs : List (String × Value)} (declared : (pairs.lookup name).isSome)
    (value : Value) : (put name value pairs).map Prod.fst = pairs.map Prod.fst := by
  induction pairs with
  | nil => cases declared
  | cons pair rest ih =>
    obtain ⟨first, old⟩ := pair
    by_cases here : name = first
    · simp only [put, here, beq_self_eq_true, if_true, List.map_cons]
    · rw [List.lookup_cons, beq_eq_false_iff_ne.2 here] at declared
      simp only [put, beq_eq_false_iff_ne.2 here, Bool.false_eq_true, if_false, List.map_cons,
        ih declared]

/-- The variables after a value is stored at a place of a vector. -/
structure StoredAt (env next : Environment) (name : String) (place : Int64) (value : Value) :
    Prop where
  stored : next.element name (.integer place) = .ok value
  elsewhere : ∀ q : Int64, q ≠ place →
    next.element name (.integer q) = env.element name (.integer q)
  length : ∃ elements others, env.find? name = some (.vector elements) ∧
    next.find? name = some (.vector others) ∧ others.length = elements.length
  declared : next.bindings.map Prod.fst = env.bindings.map Prod.fst
  others : ∀ other, other ≠ name → next.find? other = env.find? other

theorem storedAt_declare {elements : List Value} (held : env.find? name = some (.vector elements))
    {p : Int64} {place : Fin elements.length} (same : p.toInt = place) (value : Value) :
    env.StoredAt (env.declare name (.vector (elements.set place value))) name p value := by
  have after : (env.declare name (.vector (elements.set place value))).find? name =
      some (.vector (elements.set place value)) := by
    rw [find?_declare, if_pos rfl]
  have index : p.toInt.toNat = place := by
    rw [same, Int.toNat_natCast]
  have positive : 0 ≤ p.toInt := by
    rw [same]
    exact Int.natCast_nonneg _
  constructor
  case stored =>
    rw [element_of_vector after, if_pos positive, index, List.getElem?_set_self place.isLt]
  case elsewhere =>
    intro q other
    rw [element_of_vector after, element_of_vector held, List.length_set]
    by_cases nonneg : 0 ≤ q.toInt
    · have apart : (place : Nat) ≠ q.toInt.toNat := by
        intro equal
        apply other
        rw [← Int64.toInt_inj, same, equal, Int.toNat_of_nonneg nonneg]
      rw [if_pos nonneg, if_pos nonneg, List.getElem?_set_ne apart]
    · rw [if_neg nonneg, if_neg nonneg]
  case length => exact ⟨_, _, held, after, List.length_set⟩
  case declared => exact map_fst_put (by rw [← find?, held]; rfl) _
  case others =>
    intro other apart
    rw [find?_declare, if_neg apart]

/-- Reading an element and storing into it with the same index both fail, with the same error and
without a change of the variables, or both succeed. Then the index is an integer that counts an
element of the vector, what is read is that element, and storing gives it the new value and changes
nothing else. -/
theorem read_and_store_alike (env : Environment) (name : String) (index : Expr) (line : Nat)
    (value : Value) :
    (∃ e, (Expr.element name index line).eval env = .error e ∧
      env.store ⟨name, some index, line⟩ value = .error e ∧
      ∀ world : World, world.environment = env →
        Action.store ⟨name, some index, line⟩ value world = .error e world) ∨
    ∃ (p : Int64) (elements : List Value) (old : Value) (next : Environment),
      index.eval env = .ok (.integer p) ∧ env.find? name = some (.vector elements) ∧
      0 ≤ p.toInt ∧ p.toInt < elements.length ∧ elements[p.toInt.toNat]? = some old ∧
      (Expr.element name index line).eval env = .ok old ∧
      env.store ⟨name, some index, line⟩ value = .ok next ∧ env.StoredAt next name p value := by
  have reads : (Expr.element name index line).eval env =
      index.eval env >>= fun i => onLine line (env.element name i) := rfl
  have stores : env.store ⟨name, some index, line⟩ value =
      index.eval env >>= fun i => onLine line (env.assignElement name i value) := rfl
  have fails : ∀ e, env.store ⟨name, some index, line⟩ value = .error e →
      ∀ world : World, world.environment = env →
        Action.store ⟨name, some index, line⟩ value world = .error e world := by
    rintro e failed world rfl
    rw [Action.store_apply, failed]
  cases placed : index.eval env with
  | error e =>
    rw [placed] at reads stores
    exact .inl ⟨e, reads, stores, fails e stores⟩
  | ok i =>
    rw [placed] at reads stores
    simp only [bind, Except.bind, element_eq_slot, assignElement_eq_slot] at reads stores
    cases found : env.slot name i with
    | error fault =>
      rw [found] at reads stores
      exact .inl ⟨_, reads, stores, fails _ stores⟩
    | ok pair =>
      obtain ⟨elements, place⟩ := pair
      rw [found] at reads stores
      obtain ⟨held, p, rfl, same⟩ := of_slot found
      refine .inr ⟨p, elements, elements.get place, _, rfl, held, ?_, ?_, ?_, reads, stores,
        storedAt_declare held same value⟩
      · rw [same]
        exact Int.natCast_nonneg _
      · rw [same]
        exact Int.ofNat_lt.2 place.isLt
      · rw [same, Int.toNat_natCast]
        exact List.getElem?_eq_getElem place.isLt

/-- The index reads the vector before the vector becomes an element of itself. -/
example :
    let env : Environment := ⟨[("v", .vector [.integer 1, .integer 5])]⟩
    env.store ⟨"v", some (.element "v" (.integer 0 1) 1), 1⟩ (.vector [.integer 1, .integer 5]) =
      .ok ⟨[("v", .vector [.integer 1, .vector [.integer 1, .integer 5]])]⟩ := by
  rfl

end Environment

end GotoLang
