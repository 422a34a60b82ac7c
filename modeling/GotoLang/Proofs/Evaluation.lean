import GotoLang.Proofs.Behaviour

set_option autoImplicit false

namespace GotoLang

/-- What is evaluated: one statement, the statements of a sequence in their order, or those of a
loop again and again. -/
inductive Task where
  | single (s : Statement)
  | sequence (body : List Statement)
  | again (body : List Statement)

def Conclusion.ofResult : EStateM.Result RuntimeError World Unit → Conclusion
  | .ok _ after => ⟨.ok (), after⟩
  | .error e after => ⟨.error e, after⟩

/-- A task that is begun in a world comes to an end. There is no rule for `goto`. -/
inductive Evaluates : Task → World → Conclusion → Prop
  | act {s : Statement} {effect : Effect} (world : World) (acts : s.effect? = some effect) :
      Evaluates (.single s) world (.ofResult (effect.run world))
  | label (name : String) (line : Nat) (world : World) :
      Evaluates (.single (.label name line)) world ⟨.ok (), world⟩
  | empty (line : Nat) (world : World) :
      Evaluates (.single (.empty line)) world ⟨.ok (), world⟩
  | block {body : List Statement} {line : Nat} {world : World} {last : Conclusion}
      (inner : Evaluates (.sequence body) world last) :
      Evaluates (.single (.block body line)) world last
  | loop {body : List Statement} {line : Nat} {world : World} {last : Conclusion}
      (inner : Evaluates (.again body) world last) :
      Evaluates (.single (.loop body line)) world last
  | untested {condition : Expr} {branch : Statement} {line : Nat} {world : World}
      {e : RuntimeError} (tested : condition.eval world.environment = .error e) :
      Evaluates (.single (.ifThen condition branch line)) world ⟨.error e, world⟩
  | skipped {condition : Expr} {branch : Statement} {line : Nat} {world : World} {value : Value}
      (tested : condition.eval world.environment = .ok value) (fails : value.holds = false) :
      Evaluates (.single (.ifThen condition branch line)) world ⟨.ok (), world⟩
  | chosen {condition : Expr} {branch : Statement} {line : Nat} {world : World} {value : Value}
      {last : Conclusion} (tested : condition.eval world.environment = .ok value)
      (holds : value.holds = true) (inner : Evaluates (.single branch) world last) :
      Evaluates (.single (.ifThen condition branch line)) world last
  | undecided {condition : Expr} {branch other : Statement} {line : Nat} {world : World}
      {e : RuntimeError} (tested : condition.eval world.environment = .error e) :
      Evaluates (.single (.ifThenElse condition branch other line)) world ⟨.error e, world⟩
  | branch {condition : Expr} {branch other : Statement} {line : Nat} {world : World}
      {value : Value} {last : Conclusion} (tested : condition.eval world.environment = .ok value)
      (holds : value.holds = true) (inner : Evaluates (.single branch) world last) :
      Evaluates (.single (.ifThenElse condition branch other line)) world last
  | other {condition : Expr} {branch other : Statement} {line : Nat} {world : World}
      {value : Value} {last : Conclusion} (tested : condition.eval world.environment = .ok value)
      (fails : value.holds = false) (inner : Evaluates (.single other) world last) :
      Evaluates (.single (.ifThenElse condition branch other line)) world last
  | nil (world : World) : Evaluates (.sequence []) world ⟨.ok (), world⟩
  | cons {s : Statement} {rest : List Statement} {world between : World} {last : Conclusion}
      (first : Evaluates (.single s) world ⟨.ok (), between⟩)
      (others : Evaluates (.sequence rest) between last) :
      Evaluates (.sequence (s :: rest)) world last
  | stop {s : Statement} {rest : List Statement} {world after : World} {e : RuntimeError}
      (first : Evaluates (.single s) world ⟨.error e, after⟩) :
      Evaluates (.sequence (s :: rest)) world ⟨.error e, after⟩
  | repeat {body : List Statement} {world between : World} {last : Conclusion}
      (once : Evaluates (.sequence body) world ⟨.ok (), between⟩)
      (more : Evaluates (.again body) between last) : Evaluates (.again body) world last
  | break {body : List Statement} {world after : World} {e : RuntimeError}
      (once : Evaluates (.sequence body) world ⟨.error e, after⟩) :
      Evaluates (.again body) world ⟨.error e, after⟩

/-- What comes after a first part: the rest if the first part ended well, and nothing otherwise. -/
def Conclusion.Then (first : Conclusion) (rest : World → Conclusion → Prop) (last : Conclusion) :
    Prop :=
  match first.result with
  | .ok _ => rest first.world last
  | .error _ => last = first

namespace Evaluates

variable {s : Statement} {body rest : List Statement} {world : World} {last : Conclusion}

theorem sequence_nil_iff : Evaluates (.sequence []) world last ↔ last = ⟨.ok (), world⟩ := by
  constructor
  · intro evaluates
    cases evaluates
    rfl
  · rintro rfl
    exact .nil world

theorem sequence_cons_iff : Evaluates (.sequence (s :: rest)) world last ↔
    ∃ first, Evaluates (.single s) world first ∧ first.Then (Evaluates (.sequence rest)) last := by
  constructor
  · intro evaluates
    cases evaluates with
    | cons first others => exact ⟨_, first, others⟩
    | stop first => exact ⟨_, first, rfl⟩
  · rintro ⟨⟨result, between⟩, first, others⟩
    cases result with
    | ok _ => exact .cons first others
    | error e =>
      obtain rfl : last = ⟨.error e, between⟩ := others
      exact .stop first

theorem again_iff : Evaluates (.again body) world last ↔
    ∃ first, Evaluates (.sequence body) world first ∧
      first.Then (Evaluates (.again body)) last := by
  constructor
  · intro evaluates
    cases evaluates with
    | «repeat» once more => exact ⟨_, once, more⟩
    | «break» once => exact ⟨_, once, rfl⟩
  · rintro ⟨⟨result, between⟩, once, more⟩
    cases result with
    | ok _ => exact .repeat once more
    | error e =>
      obtain rfl : last = ⟨.error e, between⟩ := more
      exact .break once

/-- A loop only ends by an error. -/
theorem error_of_again (evaluates : Evaluates (.again body) world last) :
    ∃ e, last.result = .error e := by
  generalize task : Task.again body = t at evaluates
  induction evaluates with
  | «repeat» _ _ _ ih => exact ih task
  | «break» _ _ => exact ⟨_, rfl⟩
  | _ => cases task

end Evaluates

namespace Conclusion.Then

variable {first last : Conclusion} {rest : World → Conclusion → Prop}

theorem assoc {next : World → Conclusion → Prop} :
    (∃ between, first.Then rest between ∧ between.Then next last) ↔
      first.Then (fun world last => ∃ between, rest world between ∧ between.Then next last)
        last := by
  obtain ⟨result, world⟩ := first
  cases result with
  | ok _ => exact Iff.rfl
  | error e =>
    constructor
    · rintro ⟨between, rfl, nothing⟩
      exact nothing
    · rintro rfl
      exact ⟨_, rfl, rfl⟩

theorem nothing : first.Then (fun world last => last = ⟨.ok (), world⟩) last ↔ last = first := by
  obtain ⟨result, world⟩ := first
  cases result <;> exact Iff.rfl

end Conclusion.Then

def Statement.isGoto : Statement → Bool
  | .goto _ _ => true
  | _ => false

def Statement.isLoop : Statement → Bool
  | .loop _ _ => true
  | _ => false

theorem Evaluates.exists_sequence {body : List Statement}
    (each : ∀ s ∈ body, ∀ world, ∃ last, Evaluates (.single s) world last) (world : World) :
    ∃ last, Evaluates (.sequence body) world last := by
  induction body generalizing world with
  | nil => exact ⟨_, .nil world⟩
  | cons s rest ih =>
    obtain ⟨head, others⟩ := List.forall_mem_cons.1 each
    obtain ⟨⟨result, between⟩, first⟩ := head world
    cases result with
    | ok _ =>
      obtain ⟨last, evaluates⟩ := ih others between
      exact ⟨last, .cons first evaluates⟩
    | error e => exact ⟨_, .stop first⟩

/-- Without jumps and loops the evaluation of a statement comes to an end in every world. -/
theorem Statement.exists_evaluates {s : Statement}
    (straight : s.Everywhere fun t => t.isGoto = false ∧ t.isLoop = false) (world : World) :
    ∃ last, Evaluates (.single s) world last := by
  induction s generalizing world with
  | block body line ih =>
    have inside := (Everywhere.block.1 straight).2
    obtain ⟨last, evaluates⟩ :=
      Evaluates.exists_sequence (fun s member => ih s member (inside s member)) world
    exact ⟨last, .block evaluates⟩
  | loop body line =>
    have impossible := straight.here.2
    cases impossible
  | ifThen condition branch line ih =>
    cases tested : condition.eval world.environment with
    | error e => exact ⟨_, .untested tested⟩
    | ok value =>
      cases holds : value.holds with
      | true =>
        obtain ⟨last, evaluates⟩ := ih (Everywhere.ifThen.1 straight).2 world
        exact ⟨last, .chosen tested holds evaluates⟩
      | false => exact ⟨_, .skipped tested holds⟩
  | ifThenElse condition branch other line ihBranch ihOther =>
    obtain ⟨_, inBranch, inOther⟩ := Everywhere.ifThenElse.1 straight
    cases tested : condition.eval world.environment with
    | error e => exact ⟨_, .undecided tested⟩
    | ok value =>
      cases holds : value.holds with
      | true =>
        obtain ⟨last, evaluates⟩ := ihBranch inBranch world
        exact ⟨last, .branch tested holds evaluates⟩
      | false =>
        obtain ⟨last, evaluates⟩ := ihOther inOther world
        exact ⟨last, .other tested holds evaluates⟩
  | declare | assign | read | write => exact ⟨_, .act world rfl⟩
  | goto name line =>
    have impossible := straight.here.1
    cases impossible
  | label name line => exact ⟨_, .label name line world⟩
  | empty line => exact ⟨_, .empty line world⟩

end GotoLang
