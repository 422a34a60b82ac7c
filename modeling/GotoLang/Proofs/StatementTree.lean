import GotoLang.Label

set_option autoImplicit false

namespace GotoLang

namespace Statement

/-- Induction over the tree of a statement. -/
@[elab_as_elim, induction_eliminator]
theorem treeInduction {motive : Statement → Prop}
    (block : ∀ body line, (∀ s ∈ body, motive s) → motive (.block body line))
    (loop : ∀ body line, (∀ s ∈ body, motive s) → motive (.loop body line))
    (ifThen : ∀ condition branch line, motive branch → motive (.ifThen condition branch line))
    (ifThenElse : ∀ condition branch other line, motive branch → motive other →
      motive (.ifThenElse condition branch other line))
    (declare : ∀ names size type line, motive (.declare names size type line))
    (assign : ∀ target value, motive (.assign target value))
    (read : ∀ targets line, motive (.read targets line))
    (write : ∀ items line, motive (.write items line))
    (goto : ∀ name line, motive (.goto name line))
    (label : ∀ name line, motive (.label name line))
    (empty : ∀ line, motive (.empty line)) (statement : Statement) : motive statement :=
  @Statement.rec motive (fun body => ∀ s ∈ body, motive s) block loop ifThen ifThenElse declare
    assign read write goto label empty
    (fun _ member => absurd member List.not_mem_nil)
    (fun _ _ first rest => List.forall_mem_cons.2 ⟨first, rest⟩) statement

end Statement

mutual

/-- A statement and the statements inside it, in the order of the text. -/
def Statement.all : Statement → List Statement
  | .block body line => .block body line :: allOf body
  | .loop body line => .loop body line :: allOf body
  | .ifThen condition branch line => .ifThen condition branch line :: branch.all
  | .ifThenElse condition branch other line =>
    .ifThenElse condition branch other line :: (branch.all ++ other.all)
  | s => [s]

def allOf : List Statement → List Statement
  | [] => []
  | s :: rest => s.all ++ allOf rest

end

def Program.all (p : Program) : List Statement :=
  allOf p.body

theorem mem_allOf {t : Statement} {body : List Statement} :
    t ∈ allOf body ↔ ∃ s ∈ body, t ∈ s.all := by
  induction body with
  | nil => simp only [allOf, List.not_mem_nil, false_and, exists_false]
  | cons s rest ih =>
    simp only [allOf, List.mem_append, ih, List.mem_cons, or_and_right, exists_or, exists_eq_left]

/-- The property holds of the statement and of every statement inside it. -/
def Statement.Everywhere (property : Statement → Prop) (s : Statement) : Prop :=
  ∀ t ∈ s.all, property t

namespace Statement.Everywhere

variable {property : Statement → Prop}

theorem sequence {body : List Statement} :
    (∀ t ∈ allOf body, property t) ↔ ∀ s ∈ body, s.Everywhere property := by
  constructor
  · intro each s member t inside
    apply each
    exact mem_allOf.2 ⟨s, member, inside⟩
  · intro each t inside
    obtain ⟨s, member, inside⟩ := mem_allOf.1 inside
    exact each s member t inside

@[simp] theorem block {body : List Statement} {line : Nat} :
    (Statement.block body line).Everywhere property ↔
      property (.block body line) ∧ ∀ s ∈ body, s.Everywhere property := by
  rw [Everywhere, all, List.forall_mem_cons, sequence]

@[simp] theorem loop {body : List Statement} {line : Nat} :
    (Statement.loop body line).Everywhere property ↔
      property (.loop body line) ∧ ∀ s ∈ body, s.Everywhere property := by
  rw [Everywhere, all, List.forall_mem_cons, sequence]

@[simp] theorem ifThen {condition : Expr} {branch : Statement} {line : Nat} :
    (Statement.ifThen condition branch line).Everywhere property ↔
      property (.ifThen condition branch line) ∧ branch.Everywhere property := by
  simp only [Everywhere, all, List.forall_mem_cons]

@[simp] theorem ifThenElse {condition : Expr} {branch other : Statement} {line : Nat} :
    (Statement.ifThenElse condition branch other line).Everywhere property ↔
      property (.ifThenElse condition branch other line) ∧ branch.Everywhere property ∧
        other.Everywhere property := by
  simp only [Everywhere, all, List.forall_mem_cons, List.forall_mem_append]

theorem leaf {s : Statement} (alone : s.all = [s]) : s.Everywhere property ↔ property s := by
  simp only [Everywhere, alone, List.forall_mem_singleton]

theorem here {s : Statement} (everywhere : s.Everywhere property) : property s := by
  cases s <;> exact everywhere _ List.mem_cons_self

end Statement.Everywhere

end GotoLang
