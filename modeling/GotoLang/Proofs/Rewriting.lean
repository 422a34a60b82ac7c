import GotoLang.Proofs.FlatSimulation
import GotoLang.Proofs.InsertedLabel
import GotoLang.Proofs.LabelTable

/- A block around statements, an empty statement and a loop that is written with a jump change where
the engine stands and how deep, but not what a program does. In the flat program the first two
leave no trace, and the last one puts a label more at the start of the loop. -/

set_option autoImplicit false

namespace GotoLang

/-- One rewriting anywhere in a sequence of statements: statements are put into a block, an empty
statement is put between others, or a loop becomes a block that ends with a jump to its start, where
a label with one of the given names stands. -/
inductive Rewriting (names : String → Prop) : List Statement → List Statement → Prop
  | wrap (run : List Statement) (line : Nat) : Rewriting names run [.block run line]
  | empty (line : Nat) : Rewriting names [] [.empty line]
  | unroll {name : String} (free : names name) (body : List Statement)
      (line outer start back : Nat) : Rewriting names [.loop body line]
        [.block (.label name start :: (body ++ [.goto name back])) outer]
  | block {body other : List Statement} (inside : Rewriting names body other) (line : Nat) :
      Rewriting names [.block body line] [.block other line]
  | loop {body other : List Statement} (inside : Rewriting names body other) (line : Nat) :
      Rewriting names [.loop body line] [.loop other line]
  | ifThen {branch after : Statement} (inside : Rewriting names [branch] [after])
      (condition : Expr) (line : Nat) :
      Rewriting names [.ifThen condition branch line] [.ifThen condition after line]
  | branch {branch after : Statement} (inside : Rewriting names [branch] [after])
      (condition : Expr) (other : Statement) (line : Nat) :
      Rewriting names [.ifThenElse condition branch other line]
        [.ifThenElse condition after other line]
  | other {other after : Statement} (inside : Rewriting names [other] [after])
      (condition : Expr) (branch : Statement) (line : Nat) :
      Rewriting names [.ifThenElse condition branch other line]
        [.ifThenElse condition branch after line]
  | among {run after : List Statement} (inside : Rewriting names run after)
      (before behind : List Statement) :
      Rewriting names (before ++ run ++ behind) (before ++ after ++ behind)

@[simp] theorem codeOf_singleton (place : Nat) (s : Statement) :
    codeOf place [s] = s.code place := by
  rw [codeOf, codeOf, List.append_nil]

theorem codeOf_append (place : Nat) (statements others : List Statement) :
    codeOf place (statements ++ others) =
      codeOf place statements ++ codeOf (place + (codeOf place statements).length) others := by
  induction statements generalizing place with
  | nil => rfl
  | cons s rest ih =>
    rw [List.cons_append, codeOf, codeOf, ih, List.append_assoc, List.length_append, Nat.add_assoc]

/-- A piece of code ends in front of the mark and keeps its place, or begins behind the mark and is
moved on by one. -/
def KeepsApart (mark place length moved : Nat) : Prop :=
  (place + length ≤ mark ∧ moved = place) ∨ (mark ≤ place ∧ moved = place + 1)

variable {name : String} {mark : Nat}

theorem codeOf_moved {body : List Statement}
    (each : ∀ s ∈ body, ∀ {place moved : Nat},
      KeepsApart mark place (s.code place).length moved →
        MovedCode name mark (s.code place) (s.code moved)) {place moved : Nat}
    (apart : KeepsApart mark place (codeOf place body).length moved) :
    MovedCode name mark (codeOf place body) (codeOf moved body) := by
  induction body generalizing place moved with
  | nil => exact .nil
  | cons s rest ih =>
    obtain ⟨first, others⟩ := List.forall_mem_cons.1 each
    rw [codeOf, List.length_append] at apart
    have head : MovedCode name mark (s.code place) (s.code moved) :=
      first (by unfold KeepsApart at *; omega)
    have length := head.length_eq
    rw [codeOf, codeOf]
    exact List.rel_append head (ih others (by unfold KeepsApart at *; omega))

/-- The code of a statement at another place only differs in where its jumps lead. -/
theorem Statement.code_moved (s : Statement) {place moved : Nat}
    (apart : KeepsApart mark place (s.code place).length moved) :
    MovedCode name mark (s.code place) (s.code moved) := by
  induction s generalizing place moved with
  | block body line ih => exact codeOf_moved ih apart
  | loop body line ih =>
    simp only [code, List.length_append, List.length_singleton] at apart ⊢
    refine List.rel_append (codeOf_moved ih ?_) (.cons (.jump ?_) .nil)
    · unfold KeepsApart at *
      omega
    · unfold KeepsApart at apart
      unfold Shifted
      omega
  | ifThen condition branch line ih =>
    simp only [code, List.length_cons] at apart ⊢
    have chosen : MovedCode name mark (branch.code (place + 1)) (branch.code (moved + 1)) :=
      ih (by unfold KeepsApart at *; omega)
    have length := chosen.length_eq
    refine .cons (.test condition ?_) chosen
    unfold KeepsApart at apart
    unfold Shifted
    omega
  | ifThenElse condition branch other line ihBranch ihOther =>
    simp only [code, List.length_cons, List.length_append] at apart ⊢
    have chosen : MovedCode name mark (branch.code (place + 1)) (branch.code (moved + 1)) :=
      ihBranch (by unfold KeepsApart at *; omega)
    have length := chosen.length_eq
    rw [← length]
    have rejected : MovedCode name mark
        (other.code (place + 1 + (branch.code (place + 1)).length + 1))
        (other.code (moved + 1 + (branch.code (place + 1)).length + 1)) :=
      ihOther (by unfold KeepsApart at *; omega)
    have length := rejected.length_eq
    refine .cons (.test condition ?_) (List.rel_append chosen (.cons (.jump ?_) rejected))
    all_goals
      unfold KeepsApart at apart
      unfold Shifted
      omega
  | declare | assign | read | write => exact .cons (.act _) .nil
  | goto name line => exact .cons (.goto name line) .nil
  | label name line => exact .cons (.label name) .nil
  | empty line => exact .nil

/-- The code of a rewritten sequence is the same, or it has a label more. -/
inductive Relabelled (names : String → Prop) (place : Nat) (code other : List Instruction) : Prop
  | same (equal : other = code)
  | more {name : String} {mark : Nat} (free : names name)
      (inserted : Inserted name mark place code other)

theorem Rewriting.code {names : String → Prop} {body other : List Statement}
    (rewriting : Rewriting names body other) (place : Nat) :
    Relabelled names place (codeOf place body) (codeOf place other) := by
  -- The mark is where the rewritten loop begins. Code that ends in front of it keeps its place, and
  -- code that begins behind it is moved on.
  induction rewriting generalizing place with
  | wrap run line =>
    rw [codeOf_singleton, Statement.code]
    exact .same rfl
  | empty line =>
    rw [codeOf_singleton]
    exact .same rfl
  | @unroll name free body line outer start back =>
    rw [codeOf_singleton, codeOf_singleton, Statement.code, Statement.code, codeOf, codeOf_append,
      codeOf_singleton]
    have moves : MovedCode name place (codeOf place body) (codeOf (place + 1) body) :=
      codeOf_moved (fun s _ => s.code_moved) (Or.inr ⟨Nat.le_refl place, rfl⟩)
    exact .more free (.here (List.rel_append moves (.cons (.back back) .nil)))
  | block inside line ih =>
    rw [codeOf_singleton, codeOf_singleton, Statement.code, Statement.code]
    exact ih place
  | loop inside line ih =>
    rw [codeOf_singleton, codeOf_singleton, Statement.code, Statement.code]
    cases ih place with
    | same equal => exact .same (by rw [equal])
    | more free inserted =>
      refine .more free (inserted.append (.cons (.jump ?_) .nil))
      exact Or.inl ⟨inserted.le_mark, rfl⟩
  | @ifThen branch after inside condition line ih =>
    have chosen := ih (place + 1)
    rw [codeOf_singleton, codeOf_singleton] at chosen ⊢
    rw [Statement.code, Statement.code]
    cases chosen with
    | same equal => exact .same (by simp only [equal])
    | more free inserted =>
      have length := inserted.length_eq
      have bound := inserted.mark_le
      refine .more free (.there (.test condition ?_) inserted)
      unfold Shifted
      omega
  | @branch branch after inside condition other line ih =>
    have chosen := ih (place + 1)
    rw [codeOf_singleton, codeOf_singleton] at chosen ⊢
    rw [Statement.code, Statement.code]
    cases chosen with
    | same equal => exact .same (by simp only [equal])
    | @more name mark free inserted =>
      have length := inserted.length_eq
      have bound := inserted.mark_le
      have rejected : MovedCode name mark
          (other.code (place + 1 + (branch.code (place + 1)).length + 1))
          (other.code (place + 1 + (after.code (place + 1)).length + 1)) :=
        other.code_moved (Or.inr ⟨by omega, by omega⟩)
      have lengths := rejected.length_eq
      refine .more free (.there (.test condition ?_) (inserted.append (.cons (.jump ?_) rejected)))
      all_goals
        unfold Shifted
        omega
  | @other other after inside condition branch line ih =>
    have rejected := ih (place + 1 + (branch.code (place + 1)).length + 1)
    rw [codeOf_singleton, codeOf_singleton] at rejected ⊢
    rw [Statement.code, Statement.code]
    cases rejected with
    | same equal => exact .same (by simp only [equal])
    | @more name mark free inserted =>
      have length := inserted.length_eq
      have bound := inserted.le_mark
      have bound' := inserted.mark_le
      have chosen : MovedCode name mark (branch.code (place + 1)) (branch.code (place + 1)) :=
        branch.code_moved (Or.inl ⟨by omega, rfl⟩)
      refine .more free (.there (.test condition ?_) (.prepend chosen (.there (.jump ?_) inserted)))
      all_goals
        unfold Shifted
        omega
  | @among run after inside before behind ih =>
    simp only [codeOf_append]
    cases ih (place + (codeOf place before).length) with
    | same equal => exact .same (by rw [equal])
    | @more name mark free inserted =>
      have length := inserted.length_eq
      have bound := inserted.le_mark
      have bound' := inserted.mark_le
      have front : MovedCode name mark (codeOf place before) (codeOf place before) :=
        codeOf_moved (fun s _ => s.code_moved) (Or.inl ⟨bound, rfl⟩)
      refine .more free ((Inserted.prepend front inserted).append ?_)
      refine codeOf_moved (fun s _ => s.code_moved) (Or.inr ?_)
      simp only [List.length_append]
      omega

theorem filterMap_codeOf {body : List Statement}
    (each : ∀ s ∈ body, ∀ place enclosing,
      (s.code place).filterMap Instruction.label? = (s.labelSites enclosing).map (·.name))
    (place enclosing : Nat) :
    (codeOf place body).filterMap Instruction.label? =
      (labelSitesIn enclosing body).map (·.name) := by
  induction body generalizing place with
  | nil => rfl
  | cons s rest ih =>
    obtain ⟨first, others⟩ := List.forall_mem_cons.1 each
    rw [codeOf, labelSitesIn, List.filterMap_append, List.map_append, first place enclosing,
      ih others]

/-- The labels in the code of a statement are those of its text. -/
theorem Statement.filterMap_code (s : Statement) (place enclosing : Nat) :
    (s.code place).filterMap Instruction.label? = (s.labelSites enclosing).map (·.name) := by
  induction s generalizing place enclosing with
  | block body line ih => exact filterMap_codeOf ih place (enclosing + 1)
  | loop body line ih =>
    have inside := filterMap_codeOf ih place (enclosing + 1)
    rw [code, List.filterMap_append, inside]
    exact List.append_nil _
  | ifThen condition branch line ih => exact ih (place + 1) enclosing
  | ifThenElse condition branch other line ihBranch ihOther =>
    simp only [code, labelSites, List.filterMap_cons, List.filterMap_append, List.map_append,
      Instruction.label?, ihBranch _ enclosing, ihOther _ enclosing]
  | declare | assign | read | write | goto | label | empty => rfl

theorem Program.filterMap_flat (p : Program) :
    p.flat.filterMap Instruction.label? = p.labelNames :=
  filterMap_codeOf (fun s _ => s.filterMap_code) 0 0

theorem goto_mem_of_codeOf {name : String} {line : Nat} {body : List Statement}
    (each : ∀ s ∈ body, ∀ place, .goto name line ∈ s.code place → .goto name line ∈ s.all)
    (place : Nat) (member : .goto name line ∈ codeOf place body) :
    .goto name line ∈ allOf body := by
  induction body generalizing place with
  | nil => cases member
  | cons s rest ih =>
    obtain ⟨first, others⟩ := List.forall_mem_cons.1 each
    rw [allOf, List.mem_append]
    rw [codeOf, List.mem_append] at member
    exact member.imp (first place) (ih others _)

/-- A `goto` in the code of a statement is one of its text. -/
theorem Statement.goto_mem_of_code {name : String} {line : Nat} (s : Statement) (place : Nat)
    (member : .goto name line ∈ s.code place) : .goto name line ∈ s.all := by
  induction s generalizing place with
  | block body line ih => exact List.mem_cons_of_mem _ (goto_mem_of_codeOf ih place member)
  | loop body line ih =>
    rw [code, List.mem_append] at member
    rcases member with member | impossible
    · exact List.mem_cons_of_mem _ (goto_mem_of_codeOf ih place member)
    · cases List.mem_singleton.1 impossible
  | ifThen condition branch line ih =>
    rcases List.mem_cons.1 member with impossible | member
    · cases impossible
    · exact List.mem_cons_of_mem _ (ih _ member)
  | ifThenElse condition branch other line ihBranch ihOther =>
    simp only [code, List.mem_cons, List.mem_append, reduceCtorEq, false_or] at member
    exact List.mem_cons_of_mem _ (List.mem_append.2 (member.imp (ihBranch _) (ihOther _)))
  | declare | assign | read | write => cases List.mem_singleton.1 member
  | goto other at' =>
    cases List.mem_singleton.1 member
    exact List.mem_singleton.2 rfl
  | label => cases List.mem_singleton.1 member
  | empty => cases member

/-- A name that is not the name of a label and that no `goto` names, in the text of a program. -/
structure Program.Unnamed (p : Program) (name : String) : Prop where
  label : name ∉ p.labelNames
  goto : ∀ line, .goto name line ∉ p.all

theorem Program.Unnamed.unused {p : Program} {name : String} (unnamed : p.Unnamed name) :
    Unused name p.flat where
  label member := by
    have listed : name ∈ p.flat.filterMap Instruction.label? :=
      List.mem_filterMap.2 ⟨_, member, rfl⟩
    rw [p.filterMap_flat] at listed
    exact unnamed.label listed
  goto line member :=
    unnamed.goto line (goto_mem_of_codeOf (fun s _ => s.goto_mem_of_code) 0 member)

theorem Rewriting.plain {names : String → Prop} {body other : List Statement}
    (rewriting : Rewriting names body other) :
    ((∀ s ∈ body, s.isPlain = true) → ∀ s ∈ other, s.isPlain = true) ∧
      ((∀ s ∈ body, s.Everywhere Statement.PlainBranches) →
        ∀ s ∈ other, s.Everywhere Statement.PlainBranches) := by
  induction rewriting with
  | wrap run line =>
    refine ⟨fun _ => List.forall_mem_singleton.2 rfl, fun each => List.forall_mem_singleton.2 ?_⟩
    exact Statement.Everywhere.block.2 ⟨trivial, each⟩
  | empty line =>
    refine ⟨fun _ => List.forall_mem_singleton.2 rfl, fun _ => List.forall_mem_singleton.2 ?_⟩
    exact (Statement.Everywhere.leaf rfl).2 trivial
  | unroll free body line outer start back =>
    refine ⟨fun _ => List.forall_mem_singleton.2 rfl, fun each => List.forall_mem_singleton.2 ?_⟩
    have inside := (Statement.Everywhere.loop.1 (List.forall_mem_singleton.1 each)).2
    refine Statement.Everywhere.block.2 ⟨trivial, List.forall_mem_cons.2 ⟨?_, ?_⟩⟩
    · exact (Statement.Everywhere.leaf rfl).2 trivial
    · refine List.forall_mem_append.2 ⟨inside, List.forall_mem_singleton.2 ?_⟩
      exact (Statement.Everywhere.leaf rfl).2 trivial
  | block inside line ih =>
    refine ⟨fun _ => List.forall_mem_singleton.2 rfl, fun each => List.forall_mem_singleton.2 ?_⟩
    have before := (Statement.Everywhere.block.1 (List.forall_mem_singleton.1 each)).2
    exact Statement.Everywhere.block.2 ⟨trivial, ih.2 before⟩
  | loop inside line ih =>
    refine ⟨fun _ => List.forall_mem_singleton.2 rfl, fun each => List.forall_mem_singleton.2 ?_⟩
    have before := (Statement.Everywhere.loop.1 (List.forall_mem_singleton.1 each)).2
    exact Statement.Everywhere.loop.2 ⟨trivial, ih.2 before⟩
  | ifThen inside condition line ih =>
    simp only [List.forall_mem_singleton] at ih ⊢
    refine ⟨fun _ => rfl, fun each => ?_⟩
    obtain ⟨branch, before⟩ := Statement.Everywhere.ifThen.1 each
    exact Statement.Everywhere.ifThen.2 ⟨ih.1 branch, ih.2 before⟩
  | branch inside condition other line ih =>
    simp only [List.forall_mem_singleton] at ih ⊢
    refine ⟨fun _ => rfl, fun each => ?_⟩
    obtain ⟨⟨branch, other⟩, before, kept⟩ := Statement.Everywhere.ifThenElse.1 each
    exact Statement.Everywhere.ifThenElse.2 ⟨⟨ih.1 branch, other⟩, ih.2 before, kept⟩
  | other inside condition branch line ih =>
    simp only [List.forall_mem_singleton] at ih ⊢
    refine ⟨fun _ => rfl, fun each => ?_⟩
    obtain ⟨⟨branch, other⟩, kept, before⟩ := Statement.Everywhere.ifThenElse.1 each
    exact Statement.Everywhere.ifThenElse.2 ⟨⟨branch, ih.1 other⟩, kept, ih.2 before⟩
  | among inside before behind ih =>
    simp only [List.forall_mem_append]
    exact ⟨fun each => ⟨⟨each.1.1, ih.1 each.1.2⟩, each.2⟩,
      fun each => ⟨⟨each.1.1, ih.2 each.1.2⟩, each.2⟩⟩

section Programs

variable {p q : Program}

/-- A program that is accepted is accepted when it is rewritten, and its labels are the same but for
the one that is more. -/
theorem Rewriting.distinct (rewriting : Rewriting p.Unnamed p.body q.body)
    (distinct : p.labelNames.Nodup) : q.labelNames.Nodup := by
  rw [← p.filterMap_flat] at distinct
  rw [← q.filterMap_flat]
  cases rewriting.code 0 with
  | same equal => rwa [Program.flat, equal]
  | @more name mark unnamed inserted =>
    have fresh : name ∉ p.flat.filterMap Instruction.label? := by
      rw [p.filterMap_flat]
      exact unnamed.label
    exact inserted.filterMap_perm.nodup_iff.2 (List.nodup_cons.2 ⟨fresh, distinct⟩)

/-- A flat program and the one of a rewritten program do the same. -/
theorem Rewriting.flat_agrees (rewriting : Rewriting p.Unnamed p.body q.body) (machine : Machine)
    (start : machine.place = 0) :
    (Machine.behaviour p.flat machine).Agrees (Machine.behaviour q.flat machine) := by
  cases rewriting.code 0 with
  | same equal =>
    rw [Program.flat, Program.flat, equal]
    exact .refl _
  | @more name mark unnamed inserted =>
    apply (inserted.followed unnamed.unused).agrees
    have kept : machine.ShiftedTo mark machine := ⟨Or.inl ⟨by omega, rfl⟩, rfl⟩
    exact kept

/-- A program that was read and is accepted does the same when it is rewritten in one place, if the
output can be flushed: a block around some of its statements, an empty statement among others, or a
loop that is written with a label and a `goto` whose name the program does not use. It performs the
same operations in the same order and in the same worlds, ends if and only if the other one does,
with the same result, variables, unread input and output, and runs on forever if and only if the
other one does. -/
theorem rewriting_agrees (source : String) (p q : Program) (input : List UInt8) (output : Sink)
    (prompts : Bool) (memory : Nat → Bool) (engine : Engine)
    (parsed : Program.ofSource source = .ok p)
    (started : Engine.start p input output prompts memory = .ok engine)
    (flushes : ∀ size, output.failFlush size = false)
    (rewriting : Rewriting p.Unnamed p.body q.body) :
    ∃ other, Engine.start q input output prompts memory = .ok other ∧
      engine.behaviour.Agrees other.behaviour := by
  have plain := Program.everywhere_plainBranches parsed
  have distinct := rewriting.distinct (Engine.distinct_of_start started)
  have accepted : Labels.ofProgram q = .ok ⟨q.markers⟩ :=
    Labels.ofProgram_eq_ok_iff.2 ⟨distinct, rfl⟩
  refine ⟨Engine.initial q input output prompts memory, ?_, ?_⟩
  · rw [Engine.start_eq, accepted]
    rfl
  · rw [Engine.eq_initial_of_start started, Engine.behaviour_eq, Engine.behaviour_eq]
    -- Each engine does what its flat program does.
    have one := (Engine.followedByMachine p plain).agrees
      (Engine.initial_matches p input output prompts memory flushes)
    have other := (Engine.followedByMachine q (rewriting.plain.2 plain)).agrees
      (Engine.initial_matches q input output prompts memory flushes)
    exact one.trans ((rewriting.flat_agrees _ rfl).trans other.symm)

theorem rewriting_agrees_in_entered_loop :
    ∃ p q engine other, Program.ofSource
        "begin goto in; loop write 1; in: write 2; goto out end; out: end" = .ok p ∧
      Program.ofSource
        "begin goto in; begin again: write 1; in: write 2; goto out; goto again end; out: end" =
          .ok q ∧
      Rewriting p.Unnamed p.body q.body ∧
      Engine.start p [] .unlimited false (fun _ => true) = .ok engine ∧
      Engine.start q [] .unlimited false (fun _ => true) = .ok other ∧
      engine.behaviour.Agrees other.behaviour := by
  let inside : List Statement := [.write [.expr (.integer 1 1)] 1, .label "in" 1,
    .write [.expr (.integer 2 1)] 1, .goto "out" 1]
  let p : Program := ⟨[.goto "in" 1, .loop inside 1, .label "out" 1, .empty 1], 1⟩
  let q : Program := ⟨[.goto "in" 1, .block (.label "again" 1 :: (inside ++ [.goto "again" 1])) 1,
    .label "out" 1, .empty 1], 1⟩
  have parsed : Program.ofSource
      "begin goto in; loop write 1; in: write 2; goto out end; out: end" = .ok p := by
    with_unfolding_all rfl
  have parsedAfter : Program.ofSource
      "begin goto in; begin again: write 1; in: write 2; goto out; goto again end; out: end" =
        .ok q := by
    with_unfolding_all rfl
  have started : Engine.start p [] .unlimited false (fun _ => true) =
    .ok (Engine.initial p [] .unlimited false (fun _ => true)) := rfl
  have unnamed : p.Unnamed "again" := by
    refine ⟨by decide, fun line member => ?_⟩
    simp [p, inside, Program.all, allOf, Statement.all] at member
  have rewriting : Rewriting p.Unnamed p.body q.body :=
    .among (.unroll unnamed inside 1 1 1 1) [.goto "in" 1] [.label "out" 1, .empty 1]
  obtain ⟨other, begun, agrees⟩ :=
    rewriting_agrees _ p q [] .unlimited false (fun _ => true) _ parsed started
      (fun _ => rfl) rewriting
  exact ⟨p, q, _, other, parsed, parsedAfter, rewriting, started, begun, agrees⟩

/-- It is not enough that no label has the name: a `goto` without a label fails, and with the label
of the loop it leads there. -/
theorem rewriting_differs_for_undefined_label :
    ∃ p q engine other, Program.ofSource
        "begin n: integer; loop if n then goto m; n := 1; goto l end; m: write n end" = .ok p ∧
      Program.ofSource
        "begin n: integer; begin l: if n then goto m; n := 1; goto l; goto l end; m: write n end" =
          .ok q ∧
      Rewriting (· ∉ p.labelNames) p.body q.body ∧
      Engine.start p [] .unlimited false (fun _ => true) = .ok engine ∧
      Engine.start q [] .unlimited false (fun _ => true) = .ok other ∧
      (∃ n, (engine.behaviour.stage n).result? = some (.error ⟨.undefinedLabel "l", 1⟩)) ∧
      (∃ n, (other.behaviour.stage n).result? = some (.ok ())) ∧
      ¬ engine.behaviour.Agrees other.behaviour := by
  let inside : List Statement := [.ifThen (.var "n" 1) (.goto "m" 1) 1,
    .assign ⟨"n", none, 1⟩ (.integer 1 1), .goto "l" 1]
  let before : List Statement := [.declare ["n"] none .integer 1]
  let behind : List Statement := [.label "m" 1, .write [.expr (.var "n" 1)] 1]
  let p : Program := ⟨before ++ [.loop inside 1] ++ behind, 1⟩
  let q : Program :=
    ⟨before ++ [.block (.label "l" 1 :: (inside ++ [.goto "l" 1])) 1] ++ behind, 1⟩
  have parsed : Program.ofSource
      "begin n: integer; loop if n then goto m; n := 1; goto l end; m: write n end" = .ok p := by
    with_unfolding_all rfl
  have parsedAfter : Program.ofSource
      "begin n: integer; begin l: if n then goto m; n := 1; goto l; goto l end; m: write n end" =
        .ok q := by
    with_unfolding_all rfl
  have rewriting : Rewriting (· ∉ p.labelNames) p.body q.body :=
    .among (.unroll (by decide) inside 1 1 1 1) before behind
  let engine := Engine.initial p [] .unlimited false (fun _ => true)
  let other := Engine.initial q [] .unlimited false (fun _ => true)
  have fails : (engine.behaviour.stage 6).result? = some (.error ⟨.undefinedLabel "l", 1⟩) := by
    decide +kernel
  have ends : (other.behaviour.stage 14).result? = some (.ok ()) := by
    decide +kernel
  refine ⟨p, q, engine, other, parsed, parsedAfter, rewriting, rfl, rfl, ⟨6, fails⟩, ⟨14, ends⟩,
    fun agrees => ?_⟩
  obtain ⟨last, ended, failed⟩ := Stage.result?_eq_some_iff.1 fails
  obtain ⟨last', ended', succeeded⟩ := Stage.result?_eq_some_iff.1 ends
  obtain ⟨n, alike⟩ := (agrees.ended last).1 ⟨6, ended⟩
  rw [Engine.ended_unique alike ended', succeeded] at failed
  cases failed

end Programs

end GotoLang
