import GotoLang.Proofs.Derivation
import GotoLang.Proofs.StatementTree

set_option autoImplicit false

namespace GotoLang

namespace Statement

/-- The statement may be a branch of an `if`. -/
def isPlain : Statement → Bool
  | label _ _ | declare _ _ _ _ => false
  | _ => true

/-- If the statement is an `if`, its branches are neither labels nor declarations. -/
def PlainBranches : Statement → Prop
  | ifThen _ branch _ => branch.isPlain = true
  | ifThenElse _ branch other _ => branch.isPlain = true ∧ other.isPlain = true
  | _ => True

end Statement

namespace Grammar

theorem isDeclaration_of_declaration {ts : List Lexeme} {r : Parsed Statement ts.length}
    (parsed : declaration ts = .ok r) :
    ∃ names size type line, r.value = .declare names size type line := by
  unfold declaration at parsed
  obtain ⟨names, _, parsed⟩ := bind_eq_ok.1 parsed
  obtain ⟨_, _, parsed⟩ := bind_eq_ok.1 parsed
  obtain ⟨size, _, parsed⟩ := bind_eq_ok.1 parsed
  obtain ⟨type, _, built⟩ := bind_eq_ok.1 parsed
  cases pure_eq_ok.1 built
  exact ⟨_, _, _, _, rfl⟩

def Form.isSingle : Form → Bool
  | statement | conditional _ => true
  | item | body _ => false

/-- What the rules build has plain branches, and one statement may itself be a branch. -/
def Form.Plain (form : Form) (built : List Statement) : Prop :=
  (∀ s ∈ built, s.Everywhere Statement.PlainBranches) ∧
    (form.isSingle = true → ∀ s ∈ built, s.isPlain = true)

theorem Form.Plain.single {form : Form} {s : Statement}
    (everywhere : s.Everywhere Statement.PlainBranches) (plain : s.isPlain = true) :
    form.Plain [s] :=
  ⟨List.forall_mem_singleton.2 everywhere, fun _ => List.forall_mem_singleton.2 plain⟩

theorem Derives.plain {form : Form} {ts after : List Lexeme} {built : List Statement}
    (derivation : Derives form ts built after) : form.Plain built := by
  induction derivation with
  | block _ ih => exact .single (Statement.Everywhere.block.2 ⟨trivial, ih.1⟩) rfl
  | loop _ ih => exact .single (Statement.Everywhere.loop.2 ⟨trivial, ih.1⟩) rfl
  | conditional _ ih => exact ih
  | goto _ => exact .single ((Statement.Everywhere.leaf rfl).2 trivial) rfl
  | read _ => exact .single ((Statement.Everywhere.leaf rfl).2 trivial) rfl
  | write _ => exact .single ((Statement.Everywhere.leaf rfl).2 trivial) rfl
  | assign _ _ => exact .single ((Statement.Everywhere.leaf rfl).2 trivial) rfl
  | empty _ => exact .single ((Statement.Everywhere.leaf rfl).2 trivial) rfl
  | ifThen _ _ _ _ ih =>
    have inside := List.forall_mem_singleton.1 ih.1
    have plain := List.forall_mem_singleton.1 (ih.2 rfl)
    exact .single (Statement.Everywhere.ifThen.2 ⟨plain, inside⟩) rfl
  | ifThenElse _ _ _ _ _ ihBranch ihOther =>
    have inBranch := List.forall_mem_singleton.1 ihBranch.1
    have plainBranch := List.forall_mem_singleton.1 (ihBranch.2 rfl)
    have inOther := List.forall_mem_singleton.1 ihOther.1
    have plainOther := List.forall_mem_singleton.1 (ihOther.2 rfl)
    exact .single
      (Statement.Everywhere.ifThenElse.2 ⟨⟨plainBranch, plainOther⟩, inBranch, inOther⟩) rfl
  | labelled _ _ ih =>
    exact ⟨List.forall_mem_cons.2 ⟨(Statement.Everywhere.leaf rfl).2 trivial, ih.1⟩,
      fun impossible => nomatch impossible⟩
  | declared _ _ declared =>
    obtain ⟨names, size, type, line, built⟩ := isDeclaration_of_declaration declared
    rw [built]
    exact ⟨List.forall_mem_singleton.2 ((Statement.Everywhere.leaf rfl).2 trivial),
      fun impossible => nomatch impossible⟩
  | single _ _ _ ih => exact ⟨ih.1, fun impossible => nomatch impossible⟩
  | close => exact ⟨List.forall_mem_nil _, fun impossible => nomatch impossible⟩
  | last _ _ _ _ ih => exact ⟨ih.1, fun impossible => nomatch impossible⟩
  | cons _ _ _ _ _ ihFirst ihOthers =>
    exact ⟨List.forall_mem_append.2 ⟨ihFirst.1, ihOthers.1⟩, fun impossible => nomatch impossible⟩

end Grammar

/-- No branch in a program that was read is a label or a declaration. -/
theorem Program.everywhere_plainBranches {source : String} {p : Program}
    (parsed : Program.ofSource source = .ok p) :
    ∀ s ∈ p.body, s.Everywhere Statement.PlainBranches := by
  obtain ⟨ts, _, parsed⟩ := Grammar.bind_eq_ok.1 parsed
  obtain ⟨rest, after, _, derivation, _⟩ :=
    Grammar.wholeProgram_derives (Grammar.wholeProgram_of_program parsed)
  exact derivation.plain.1

end GotoLang
