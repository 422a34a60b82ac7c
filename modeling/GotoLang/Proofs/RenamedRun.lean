import GotoLang.Proofs.Coupling
import GotoLang.Proofs.LimitedRun
import GotoLang.Proofs.Renaming

set_option autoImplicit false

namespace GotoLang

def World.rename (r : Renaming) (world : World) : World :=
  { world with environment := world.environment.rename r }

def Flow.rename (r : Renaming) : Flow → Flow
  | next => .next
  | enter frame => .enter (frame.rename r)
  | jump label line => .jump (r.label label) line

def Jump.rename (r : Renaming) (jump : Jump) : Jump where
  label := r.label jump.label
  line := jump.line

/-- The engine with other names in its frames, its pending jump and its variables. -/
def Engine.rename (r : Renaming) (engine : Engine) : Engine where
  labels := engine.labels.rename r
  position := engine.position.rename r
  jump? := engine.jump?.map (Jump.rename r)
  world := engine.world.rename r
  line := engine.line

def Outcome.rename {α : Type} (r : Renaming) : Outcome α → Outcome α
  | .ok a engine => .ok a (engine.rename r)
  | .error e engine => .error (e.rename r) (engine.rename r)

def Engine.Progress.rename (r : Renaming) : Engine.Progress → Engine.Progress
  | running engine => .running (engine.rename r)
  | ended outcome => .ended (outcome.rename r)

/-- A world that asks for nothing beside the same world under other names. -/
def renamed (r : Renaming) : Coupling where
  worlds world twin := world.prompts = false ∧ twin = world.rename r
  errors e other := other = e.rename r
  parts _ := False

namespace Action

variable {r : Renaming}

theorem renamed_evaluate (e : Expr) :
    (renamed r).Actions Eq (evaluate e) (evaluate (e.rename r)) := by
  intro world twin related
  obtain ⟨silent, rfl⟩ := related
  rw [evaluate_apply, evaluate_apply, World.rename, e.eval_rename]
  cases e.eval world.environment with
  | ok value => exact .ok rfl ⟨silent, rfl⟩
  | error e => exact .error rfl ⟨silent, rfl⟩

theorem renamed_store (target : Target) (value : Value) :
    (renamed r).Actions Eq (store target value) (store (target.rename r) value) := by
  intro world twin related
  obtain ⟨silent, rfl⟩ := related
  rw [store_apply, store_apply, World.rename, Environment.store_rename]
  cases world.environment.store target value with
  | ok environment => exact .ok rfl ⟨silent, rfl⟩
  | error e => exact .error rfl ⟨silent, rfl⟩

theorem renamed_declare (value : Value) (name : String) :
    (renamed r).Actions Eq (declare value name) (declare value (r.var name)) := by
  intro world twin related
  obtain ⟨silent, rfl⟩ := related
  have declared := Environment.declare_rename r world.environment name value
  exact .ok rfl ⟨silent, congrArg (fun environment => { world with environment }) declared⟩

theorem renamed_emit (line : Nat) (text : String) :
    (renamed r).Actions Eq (emit line text) (emit line text) := by
  intro world twin related
  obtain ⟨silent, rfl⟩ := related
  simp only [emit_apply, World.rename]
  cases (world.output.write text.toUTF8).2 with
  | true => exact .ok rfl ⟨silent, rfl⟩
  | false => exact .error rfl ⟨silent, rfl⟩

/-- Nothing is asked for. -/
theorem renamed_prompt (line : Nat) (name : String) :
    (renamed r).Actions Eq (prompt line name) (prompt line (r.var name)) := by
  intro world twin related
  obtain ⟨silent, rfl⟩ := related
  have quiet : ¬ world.prompts = true := by
    rw [silent]
    exact Bool.false_ne_true
  rw [prompt_apply, prompt_apply, if_neg quiet,
    if_neg (show ¬ (world.rename r).prompts = true from quiet)]
  exact .ok rfl ⟨silent, rfl⟩

theorem renamed_nextLine (line : Nat) (name : String) :
    (renamed r).Actions Eq (nextLine line name) (nextLine line (r.var name)) := by
  intro world twin related
  obtain ⟨silent, rfl⟩ := related
  simp only [nextLine_apply, World.rename]
  cases String.fromUTF8? (splitLine world.input).1.toByteArray with
  | none => exact .error rfl ⟨silent, rfl⟩
  | some text =>
    by_cases empty : (splitLine world.input).1 = []
    · simp only [if_pos empty]
      exact .error rfl ⟨silent, rfl⟩
    · simp only [if_neg empty]
      exact .ok rfl ⟨silent, rfl⟩

theorem renamed_readTarget (line : Nat) (target : Target) :
    (renamed r).Actions Eq (readTarget line target) (readTarget line (target.rename r)) := by
  apply Coupling.Actions.bind (renamed_prompt line target.name)
  intro _ _ _
  apply Coupling.Actions.bind (renamed_nextLine line target.name)
  intro text _ same
  exact same ▸ renamed_store target (.ofLine text)

theorem renamed_writeItem (line : Nat) (item : WriteItem) :
    (renamed r).Actions Eq (writeItem line item) (writeItem line (item.rename r)) := by
  cases item with
  | expr e =>
    apply Coupling.Actions.bind (renamed_evaluate e)
    intro value _ same
    exact same ▸ renamed_emit line value.toText
  | layout l =>
    cases l with
    | space => exact renamed_emit line " "
    | tab => exact renamed_emit line "\t"
    | skip => exact .pure rfl

theorem renamed_vector (type : ElementType) (length : Value) (line : Nat) :
    (renamed r).Actions Eq (vector type length line) (vector type length line) := by
  intro world twin related
  obtain ⟨silent, rfl⟩ := related
  have sized := type.vector_yields world.memory length
  simp only [vector_apply, World.rename]
  generalize type.vector world.memory length = result at sized ⊢
  cases result with
  | ok value => exact .ok rfl ⟨silent, rfl⟩
  | error fault =>
    obtain ⟨size, rfl⟩ := sized
    exact .error rfl ⟨silent, rfl⟩

theorem renamed_initial (size : Option Expr) (type : ElementType) (line : Nat) :
    (renamed r).Actions Eq (initial size type line)
      (initial (size.map (Expr.rename r)) type line) := by
  cases size with
  | none => exact .pure rfl
  | some size =>
    apply Coupling.Actions.bind (renamed_evaluate size)
    intro length _ same
    exact same ▸ renamed_vector type length line

end Action

/-- If the parts of a statement keep step, then so does the statement. -/
theorem Statement.renamed_execute (r : Renaming) (s : Statement) :
    (renamed r).Actions (fun flow other => other = flow.rename r) s.execute
      (s.rename r).execute := by
  induction s with
  | ifThen condition branch line ih =>
    apply Coupling.Actions.bind (Action.renamed_evaluate condition)
    intro value _ same
    subst same
    by_cases holds : value.holds = true
    · simpa only [if_pos holds] using ih
    · simp only [if_neg holds]
      exact .pure rfl
  | ifThenElse condition branch other line ihBranch ihOther =>
    apply Coupling.Actions.bind (Action.renamed_evaluate condition)
    intro value _ same
    subst same
    by_cases holds : value.holds = true
    · simpa only [if_pos holds] using ihBranch
    · simpa only [if_neg holds] using ihOther
  | declare names size type line =>
    apply Coupling.Actions.bind (Action.renamed_initial size type line)
    intro value _ same
    subst same
    apply Coupling.Actions.bind (.forM_map names (Action.renamed_declare value))
    exact fun _ _ _ => .pure rfl
  | assign target e =>
    apply Coupling.Actions.bind (Action.renamed_evaluate e)
    intro value _ same
    subst same
    apply Coupling.Actions.bind (Action.renamed_store target value)
    exact fun _ _ _ => .pure rfl
  | read targets line =>
    apply Coupling.Actions.bind (.forM_map targets (Action.renamed_readTarget line))
    exact fun _ _ _ => .pure rfl
  | write items line =>
    apply Coupling.Actions.bind (.forM_map items (Action.renamed_writeItem line))
    intro _ _ _
    apply Coupling.Actions.bind (Action.renamed_emit line "\n")
    exact fun _ _ _ => .pure rfl
  | block | loop | goto | label | empty => exact .pure rfl

/-- A program starts under other names exactly if it starts, and it starts in the same place. -/
theorem Engine.start_rename (r : Renaming) (p : Program) (input : List UInt8) (output : Sink)
    (prompts : Bool) (memory : Nat → Bool) :
    start (p.rename r) input output prompts memory =
      ((start p input output prompts memory).map (rename r)).mapError (RuntimeError.rename r) := by
  rw [start_eq, start_eq, Labels.ofProgram_rename]
  cases Labels.ofProgram p with
  | error e => rfl
  | ok labels =>
    have table : (⟨(p.rename r).markers⟩ : Labels) = Labels.rename r ⟨p.markers⟩ :=
      congrArg Labels.mk (p.markers_rename r)
    simp only [Except.map, Except.mapError, initial, table]
    rfl

namespace Engine

variable (r : Renaming) {engine : Engine}

theorem follow_rename (engine : Engine) (flow : Flow) :
    (engine.rename r).follow (flow.rename r) = (engine.follow flow).rename r := by
  obtain ⟨labels, position, jump?, world, line⟩ := engine
  cases flow with
  | next => cases position <;> rfl
  | enter frame => rfl
  | jump label line => rfl

theorem perform_rename (silent : engine.world.prompts = false) (s : Statement) :
    (engine.rename r).perform (s.rename r) = (engine.perform s).rename r := by
  have both := s.renamed_execute r engine.world (engine.world.rename r) ⟨silent, rfl⟩
  simp only [perform, rename, s.line_rename]
  generalize s.execute engine.world = result,
    (s.rename r).execute (engine.world.rename r) = twin at both ⊢
  cases both with
  | @ok flow _ world _ same after =>
    obtain ⟨_, rfl⟩ := after
    subst same
    exact congrArg (EStateM.Result.ok true)
      (follow_rename r { engine with world, line := s.line } flow)
  | error same after =>
    obtain ⟨_, rfl⟩ := after
    subst same
    rfl
  | parted ends => exact ends.elim

/-- A step under other names is the same step. -/
theorem step_rename (silent : engine.world.prompts = false) :
    (engine.rename r).step = engine.step.rename r := by
  have performs := perform_rename r silent
  obtain ⟨labels, position, jump?, world, line⟩ := engine
  cases jump? with
  | some jump =>
    have found := labels.find?_rename r jump.label
    simp only [step, carryOut, Labels.resolve, rename, Option.map_some, Jump.rename, found]
    cases labels.find? jump.label <;> rfl
  | none =>
    cases position with
    | nil => rfl
    | cons frame outer =>
      have here := frame.current?_rename r
      have loops : (frame.rename r).isLoop = frame.isLoop := rfl
      cases current : frame.current? with
      | some s =>
        rw [current, Option.map_some] at here
        simp only [step, rename, Position.rename, List.map_cons, Option.map_none, current, here]
        exact performs s
      | none =>
        rw [current, Option.map_none] at here
        simp only [step, rename, Position.rename, List.map_cons, Option.map_none, current, here,
          loops]
        cases frame.isLoop with
        | true => rfl
        | false => cases outer <;> rfl

theorem silent_step (silent : engine.world.prompts = false) :
    engine.step.engine.world.prompts = false :=
  (step_within World.SameSettings.allows engine).1.trans silent

theorem finish_rename (engine : Engine) :
    (engine.rename r).finish = engine.finish.rename r := by
  simp only [finish, Action.flush_apply, rename, World.rename]
  cases engine.world.output.refusesFlush <;> rfl

/-- A run under other names is the same run. -/
theorem runFor_rename (silent : engine.world.prompts = false) (steps : Nat) :
    (engine.rename r).runFor steps = (engine.runFor steps).rename r := by
  induction steps generalizing engine with
  | zero => rfl
  | succ steps ih =>
    -- The next step has to be silent, too, for the induction to go on.
    have kept := silent_step silent
    rw [runFor, runFor, step_rename r silent]
    generalize engine.step = outcome at kept ⊢
    cases outcome with
    | error e last => rfl
    | ok goes next =>
      cases goes with
      | true => exact ih kept
      | false => exact congrArg Progress.ended (finish_rename r next)

theorem silent_afterCalls (silent : engine.world.prompts = false) (calls : Nat) :
    (engine.afterCalls calls).world.prompts = false := by
  induction calls generalizing engine with
  | zero => exact silent
  | succ calls ih => exact ih (silent_step silent)

theorem afterCalls_rename (silent : engine.world.prompts = false) (calls : Nat) :
    (engine.rename r).afterCalls calls = (engine.afterCalls calls).rename r := by
  induction calls generalizing engine with
  | zero => rfl
  | succ calls ih =>
    have steps : (engine.rename r).step.engine = engine.step.engine.rename r := by
      rw [step_rename r silent]
      cases engine.step <;> rfl
    rw [afterCalls, Function.iterate_succ_apply, steps]
    exact ih (silent_step silent)

end Engine

theorem World.rename_of_same {r : Renaming} (same : ∀ name, r.var name = name) (world : World) :
    world.rename r = world := by
  have kept : Prod.map r.var id = (id : String × Value → String × Value) := by
    funext pair
    exact Prod.ext (same pair.1) rfl
  obtain ⟨⟨bindings⟩, input, output, prompts, memory⟩ := world
  simp only [rename, Environment.rename, kept, List.map_id]

/-- Names are only names. With prompts off, a program under other names for its labels and for its
variables is refused or started like the program itself. After any number of calls of `step`,
failed ones included, the engines are the same but for the names in their frames, in a pending jump
and in the environment, and the next step has the same result or the same error but for the names
in it. So has a whole run. If the variables keep their names, variables, input and output are the
very same, whether or not there are labels of these names. -/
theorem names_only_names (p : Program) (r : Renaming) (input : List UInt8) (output : Sink)
    (memory : Nat → Bool) :
    Engine.start (p.rename r) input output false memory =
      ((Engine.start p input output false memory).map (Engine.rename r)).mapError
        (RuntimeError.rename r) ∧
    ∀ first, Engine.start p input output false memory = .ok first → ∀ calls,
      (first.rename r).afterCalls calls = (first.afterCalls calls).rename r ∧
      ((first.rename r).afterCalls calls).step = (first.afterCalls calls).step.rename r ∧
      (first.rename r).runFor calls = (first.runFor calls).rename r ∧
      ((∀ name, r.var name = name) →
        ((first.rename r).afterCalls calls).world = (first.afterCalls calls).world) := by
  refine ⟨Engine.start_rename r p input output false memory, ?_⟩
  intro first started calls
  obtain rfl := Engine.eq_initial_of_start started
  have silent : (Engine.initial p input output false memory).world.prompts = false := rfl
  have same := Engine.afterCalls_rename r silent calls
  refine ⟨same, ?_, Engine.runFor_rename r silent calls, ?_⟩
  · rw [same]
    exact Engine.step_rename r (Engine.silent_afterCalls silent calls)
  · intro keeps
    rw [same]
    exact World.rename_of_same keeps _

theorem names_only_names_of_label_and_variable :
    ∃ p q first twin, ∃ r : Renaming,
      Program.ofSource "begin a: integer; goto a; a: write a end" = .ok p ∧
      Program.ofSource "begin n: integer; goto b; b: write n end" = .ok q ∧ q = p.rename r ∧
      Engine.start p [] .unlimited false (fun _ => true) = .ok first ∧
      Engine.start q [] .unlimited false (fun _ => true) = .ok twin ∧
      twin.afterCalls 5 = (first.afterCalls 5).rename r ∧
      (twin.afterCalls 5).world.output = (first.afterCalls 5).world.output ∧
      (first.afterCalls 5).world.output.written.toList = [48, 10] := by
  let r : Renaming :=
    ⟨(Equiv.swap "a" "b").toEmbedding, (Equiv.swap "a" "n").toEmbedding⟩
  let p : Program := ⟨[.declare ["a"] none .integer 1, .goto "a" 1, .label "a" 1,
    .write [.expr (.var "a" 1)] 1], 1⟩
  have parsed : Program.ofSource "begin a: integer; goto a; a: write a end" = .ok p := by
    with_unfolding_all rfl
  have renamed : Program.ofSource "begin n: integer; goto b; b: write n end" =
      .ok (p.rename r) := by
    with_unfolding_all rfl
  let first := Engine.initial p [] .unlimited false (fun _ => true)
  have started : Engine.start p [] .unlimited false (fun _ => true) = .ok first := rfl
  have written : (first.afterCalls 5).world.output.written.toList = [48, 10] := by
    decide +kernel
  obtain ⟨starts, runs⟩ := names_only_names p r [] .unlimited fun _ => true
  rw [started] at starts
  obtain ⟨same, _⟩ := runs first started 5
  exact ⟨p, _, first, _, r, parsed, renamed, rfl, started, starts, same,
    congrArg (·.world.output) same, written⟩

end GotoLang
