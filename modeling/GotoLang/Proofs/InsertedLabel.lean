import GotoLang.Proofs.FlatMachine
import Mathlib.Data.List.Forall2

set_option autoImplicit false

namespace GotoLang

/-- A place is kept up to the mark and moved on by one behind it. The mark itself may be either. -/
def Shifted (mark i j : Nat) : Prop :=
  (i ≤ mark ∧ j = i) ∨ (mark ≤ i ∧ j = i + 1)

/-- What becomes of an instruction when a label is put at the mark. -/
inductive Instruction.Moved (name : String) (mark : Nat) : Instruction → Instruction → Prop
  | act (effect : Effect) : Moved name mark (.act effect) (.act effect)
  | test (condition : Expr) {i j : Nat} (shifted : Shifted mark i j) :
      Moved name mark (.test condition i) (.test condition j)
  | jump {i j : Nat} (shifted : Shifted mark i j) : Moved name mark (.jump i) (.jump j)
  | back (line : Nat) : Moved name mark (.jump mark) (.goto name line)
  | label (other : String) : Moved name mark (.label other) (.label other)
  | goto (other : String) (line : Nat) : Moved name mark (.goto other line) (.goto other line)

abbrev MovedCode (name : String) (mark : Nat) : List Instruction → List Instruction → Prop :=
  List.Forall₂ (Instruction.Moved name mark)

/-- Instructions from a place on, without a label at the mark and with it. -/
inductive Inserted (name : String) (mark : Nat) :
    Nat → List Instruction → List Instruction → Prop
  | here {code moved : List Instruction} (behind : MovedCode name mark code moved) :
      Inserted name mark mark code (.label name :: moved)
  | there {place : Nat} {one other : Instruction} {code moved : List Instruction}
      (first : one.Moved name mark other) (rest : Inserted name mark (place + 1) code moved) :
      Inserted name mark place (one :: code) (other :: moved)

variable {name other : String} {mark place i j : Nat} {one two : Instruction}
  {code moved more rest : List Instruction}

namespace Inserted

theorem le_mark (inserted : Inserted name mark place code moved) : place ≤ mark := by
  induction inserted with
  | here => exact Nat.le_refl mark
  | there _ _ ih => omega

theorem mark_le (inserted : Inserted name mark place code moved) :
    mark ≤ place + code.length := by
  induction inserted with
  | here => exact Nat.le_add_right mark _
  | there _ _ ih =>
    rw [List.length_cons]
    omega

theorem length_eq (inserted : Inserted name mark place code moved) :
    moved.length = code.length + 1 := by
  induction inserted with
  | here behind => rw [List.length_cons, behind.length_eq]
  | there _ _ ih => rw [List.length_cons, List.length_cons, ih]

theorem append (inserted : Inserted name mark place code moved)
    (behind : MovedCode name mark more rest) :
    Inserted name mark place (code ++ more) (moved ++ rest) := by
  induction inserted with
  | here first => exact .here (List.rel_append first behind)
  | there first _ ih => exact .there first ih

theorem prepend (before : MovedCode name mark code moved)
    (inserted : Inserted name mark (place + code.length) more rest) :
    Inserted name mark place (code ++ more) (moved ++ rest) := by
  induction before generalizing place with
  | nil => exact inserted
  | cons first _ ih =>
    apply Inserted.there first
    apply ih
    rwa [Nat.add_right_comm]

end Inserted

theorem MovedCode.getElem? (moves : MovedCode name mark code moved) (i : Nat) :
    Option.Rel (Instruction.Moved name mark) code[i]? moved[i]? := by
  induction moves generalizing i with
  | nil => exact .none
  | cons first _ ih =>
    cases i with
    | zero => exact .some first
    | succ i => exact ih i

theorem Instruction.Moved.label_iff (moves : one.Moved name mark two) (other : String) :
    one = .label other ↔ two = .label other := by
  cases moves <;> simp only [reduceCtorEq]

theorem MovedCode.findIdx? (moves : MovedCode name mark code moved) (other : String) :
    moved.findIdx? (· == .label other) = code.findIdx? (· == .label other) := by
  induction moves with
  | nil => rfl
  | cons first _ ih =>
    simp only [List.findIdx?_cons, beq_iff_eq, first.label_iff other, ih]

namespace Inserted

/-- The instruction at a place in front of the mark keeps its place, one from the mark on is moved
on by one. -/
theorem getElem? (inserted : Inserted name mark place code moved)
    (aligned : (place + i < mark ∧ j = i) ∨ (mark ≤ place + i ∧ j = i + 1)) :
    Option.Rel (Instruction.Moved name mark) code[i]? moved[j]? := by
  induction inserted generalizing i j with
  | here behind =>
    obtain rfl : j = i + 1 := by omega
    exact behind.getElem? i
  | there first inserted ih =>
    have bound := inserted.le_mark
    cases i with
    | zero =>
      obtain rfl : j = 0 := by omega
      exact .some first
    | succ i =>
      obtain ⟨k, rfl⟩ : ∃ k, j = k + 1 := ⟨j - 1, by omega⟩
      exact ih (i := i) (j := k) (by omega)

theorem getElem?_mark (inserted : Inserted name mark place code moved)
    (stands : place + i = mark) : moved[i]? = some (.label name) := by
  induction inserted generalizing i with
  | here =>
    obtain rfl : i = 0 := by omega
    rfl
  | there _ inserted ih =>
    have bound := inserted.le_mark
    obtain ⟨k, rfl⟩ : ∃ k, i = k + 1 := ⟨i - 1, by omega⟩
    exact ih (i := k) (by omega)

/-- The label of that name stands at the mark. -/
theorem findIdx?_self (inserted : Inserted name mark place code moved)
    (fresh : .label name ∉ code) :
    moved.findIdx? (· == .label name) = some (mark - place) := by
  induction inserted with
  | here => rw [List.findIdx?_cons, if_pos (beq_self_eq_true _), Nat.sub_self]
  | there first inserted ih =>
    obtain ⟨differs, fresh⟩ := List.ne_and_not_mem_of_not_mem_cons fresh
    have bound := inserted.le_mark
    have moved : ¬ _ = Instruction.label name := fun same =>
      differs ((first.label_iff name).2 same).symm
    rw [List.findIdx?_cons, if_neg (by simpa only [beq_iff_eq] using moved), ih fresh,
      Option.map_some]
    congr 1
    omega

/-- The other labels are where they were, or one place further. -/
theorem findIdx? (inserted : Inserted name mark place code moved) (differs : other ≠ name) :
    Option.Rel (fun i j => Shifted mark (place + i) (place + j))
      (code.findIdx? (· == .label other)) (moved.findIdx? (· == .label other)) := by
  induction inserted with
  | @here code moved behind =>
    have apart : ¬ (Instruction.label name == .label other) = true := by
      simpa only [beq_iff_eq, Instruction.label.injEq] using differs.symm
    rw [List.findIdx?_cons, if_neg apart, behind.findIdx? other]
    cases code.findIdx? (· == .label other) with
    | none => exact .none
    | some i => exact .some (Or.inr ⟨Nat.le_add_right mark i, rfl⟩)
  | @there place one two code moved first inserted ih =>
    have bound := inserted.le_mark
    rw [List.findIdx?_cons, List.findIdx?_cons]
    simp only [beq_iff_eq, first.label_iff other]
    split
    · exact .some (Or.inl ⟨by omega, rfl⟩)
    · generalize code.findIdx? (· == .label other) = found,
        moved.findIdx? (· == .label other) = leads at ih
      cases ih with
      | none => exact .none
      | some shifted => exact .some (by simpa only [Nat.add_assoc, Nat.add_comm 1] using shifted)

end Inserted

def Instruction.label? : Instruction → Option String
  | label name => some name
  | _ => none

theorem Instruction.Moved.label?_eq (moves : one.Moved name mark two) :
    two.label? = one.label? := by
  cases moves <;> rfl

theorem MovedCode.filterMap_eq (moves : MovedCode name mark code moved) :
    moved.filterMap Instruction.label? = code.filterMap Instruction.label? := by
  induction moves with
  | nil => rfl
  | cons first _ ih => rw [List.filterMap_cons, List.filterMap_cons, first.label?_eq, ih]

/-- There is one label more. -/
theorem Inserted.filterMap_perm (inserted : Inserted name mark place code moved) :
    (moved.filterMap Instruction.label?).Perm (name :: code.filterMap Instruction.label?) := by
  induction inserted with
  | here behind => rw [List.filterMap_cons, behind.filterMap_eq, Instruction.label?]
  | @there _ one two _ _ first _ ih =>
    rw [List.filterMap_cons, List.filterMap_cons, first.label?_eq]
    cases one.label? with
    | none => exact ih
    | some label => exact (ih.cons label).trans (.swap name label _)

/-- The name is not the name of a label and no `goto` names it. -/
structure Unused (name : String) (code : List Instruction) : Prop where
  label : .label name ∉ code
  goto : ∀ line, .goto name line ∉ code

/-- The machines are in the same world, and at the same place but for the label at the mark. -/
structure Machine.ShiftedTo (mark : Nat) (one other : Machine) : Prop where
  place : Shifted mark one.place other.place
  world : other.world = one.world

namespace Inserted

variable {world : World}

/-- At the label there is nothing to do, and all else is done at a place of its own. -/
theorem settle (inserted : Inserted name mark 0 code moved) (shifted : Shifted mark i j) :
    ∃ n k, (Machine.automaton moved).Steps world n ⟨j, world⟩ [] ⟨k, world⟩ ∧
      ((i < mark ∧ k = i) ∨ (mark ≤ i ∧ k = i + 1)) := by
  by_cases atMark : i = mark ∧ j = mark
  · obtain ⟨rfl, rfl⟩ := atMark
    have here : moved[j]? = some (.label name) := inserted.getElem?_mark (Nat.zero_add j)
    exact ⟨1, j + 1, Machine.steps_label here, Or.inr ⟨Nat.le_refl j, rfl⟩⟩
  · refine ⟨0, j, .refl _, ?_⟩
    unfold Shifted at shifted
    omega

/-- Where a `goto` leads in one program, it leads in the other one too. -/
theorem address? (inserted : Inserted name mark 0 code moved) (differs : other ≠ name) :
    Option.Rel (Shifted mark) (GotoLang.address? code other) (GotoLang.address? moved other) := by
  have found := inserted.findIdx? differs
  simp only [Nat.zero_add] at found
  exact found

/-- The label that is more is found at the mark. -/
theorem address?_self (inserted : Inserted name mark 0 code moved) (unused : Unused name code) :
    GotoLang.address? moved name = some mark :=
  inserted.findIdx?_self unused.label

theorem step_shifted (inserted : Inserted name mark 0 code moved) (unused : Unused name code)
    (aligned : (i < mark ∧ j = i) ∨ (mark ≤ i ∧ j = i + 1)) :
    Machine.operations moved ⟨j, world⟩ = Machine.operations code ⟨i, world⟩ ∧
      match Machine.step code ⟨i, world⟩ with
      | .ok next => ∃ next', Machine.step moved ⟨j, world⟩ = .ok next' ∧ next.ShiftedTo mark next'
      | .error conclusion => Machine.step moved ⟨j, world⟩ = .error conclusion := by
  have next : Shifted mark (i + 1) (j + 1) := by
    unfold Shifted
    omega
  have instructions := inserted.getElem? (i := i) (j := j) (by omega)
  generalize here : code[i]? = one, there : moved[j]? = other at instructions
  cases instructions with
  | none => simp only [Machine.step, Machine.operations, here, there, and_self]
  | some moves =>
    cases moves with
    | act effect =>
      simp only [Machine.step, Machine.operations, here, there, true_and]
      cases effect.run world with
      | ok _ after => exact ⟨_, rfl, next, rfl⟩
      | error e after => rfl
    | test condition shifted =>
      simp only [Machine.step, Machine.operations, here, there, true_and]
      cases condition.eval world.environment with
      | ok value =>
        refine ⟨_, rfl, ?_, rfl⟩
        cases value.holds with
        | true => exact next
        | false => exact shifted
      | error e => rfl
    | jump shifted =>
      simp only [Machine.step, Machine.operations, here, there, true_and]
      exact ⟨_, rfl, shifted, rfl⟩
    | back line =>
      simp only [Machine.step, Machine.operations, here, there, true_and,
        inserted.address?_self unused]
      exact ⟨_, rfl, Or.inl ⟨Nat.le_refl mark, rfl⟩, rfl⟩
    | label other =>
      simp only [Machine.step, Machine.operations, here, there, true_and]
      exact ⟨_, rfl, next, rfl⟩
    | goto other line =>
      have differs : other ≠ name := by
        rintro rfl
        exact unused.goto line (List.mem_of_getElem? here)
      have leads := inserted.address? differs
      simp only [Machine.step, Machine.operations, here, there, true_and]
      generalize GotoLang.address? code other = one, GotoLang.address? moved other = two at leads
      cases leads with
      | none => rfl
      | some shifted => exact ⟨_, rfl, shifted, rfl⟩

def followed (inserted : Inserted name mark 0 code moved) (unused : Unused name code) :
    Simulation (Machine.automaton code) (Machine.automaton moved) where
  related one other := one.ShiftedTo mark other
  measure _ := 0
  world shifted := shifted.world
  goes := by
    rintro ⟨i, world⟩ after ⟨j, other⟩ ⟨shifted, rfl⟩ goes
    obtain ⟨n, k, waits, aligned⟩ := inserted.settle shifted
    obtain ⟨same, answers⟩ := inserted.step_shifted unused aligned
    have stepped : Machine.step code ⟨i, other⟩ = .ok after := goes
    rw [stepped] at answers
    obtain ⟨after', moves, next⟩ := answers
    refine ⟨n + 1, after', ?_, next, by omega⟩
    have steps : (Machine.automaton moved).Steps other (n + 1) ⟨j, other⟩
        (Machine.operations moved ⟨k, other⟩) after' := waits.trans (.one rfl moves)
    rw [same] at steps
    exact steps
  ends := by
    rintro ⟨i, world⟩ ⟨j, other⟩ conclusion ⟨shifted, rfl⟩ stops
    obtain ⟨n, k, waits, aligned⟩ := inserted.settle shifted
    obtain ⟨same, answers⟩ := inserted.step_shifted unused aligned
    have stopped : Machine.step code ⟨i, other⟩ = .error conclusion := stops
    rw [stopped] at answers
    have ends : (Machine.automaton moved).Ends other ⟨j, other⟩
        (Machine.operations moved ⟨k, other⟩) conclusion :=
      .of_steps waits (Machine.ends_of_step answers)
    rw [same] at ends
    exact ends

end Inserted

end GotoLang
