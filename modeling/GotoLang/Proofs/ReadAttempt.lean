import GotoLang.Proofs.ActionInvariant
import GotoLang.Proofs.LimitedRun

set_option autoImplicit false

namespace GotoLang

/-- The lines of an input, each with its line end. Only the last one may be without. -/
def linesOf : List UInt8 → List (List UInt8)
  | [] => []
  | byte :: input =>
    if byte = 10 then [byte] :: linesOf input
    else
      match linesOf input with
      | [] => [[byte]]
      | line :: lines => (byte :: line) :: lines

@[simp] theorem flatten_linesOf (input : List UInt8) : (linesOf input).flatten = input := by
  induction input with
  | nil => rfl
  | cons byte input ih =>
    by_cases newline : byte = 10
    · simp only [linesOf, if_pos newline, List.flatten_cons, ih, List.singleton_append]
    · simp only [linesOf, if_neg newline]
      generalize linesOf input = lines at ih ⊢
      rw [← ih]
      cases lines <;> rfl

/-- Behind its first line an input has the other lines. -/
theorem linesOf_splitLine (input : List UInt8) :
    linesOf (splitLine input).2 = (linesOf input).tail := by
  induction input with
  | nil => rfl
  | cons byte input ih =>
    by_cases newline : byte = 10
    · simp only [splitLine, linesOf, if_pos newline, List.tail_cons]
    · simp only [splitLine, linesOf, if_neg newline, ih]
      cases linesOf input <;> rfl

theorem splitLine_eq_nil_iff {input : List UInt8} : (splitLine input).1 = [] ↔ input = [] := by
  cases input with
  | nil => exact Iff.rfl
  | cons byte input =>
    by_cases newline : byte = 10
    · simp only [splitLine, if_pos newline, reduceCtorEq]
    · simp only [splitLine, if_neg newline, reduceCtorEq]

/-- An attempt to fill a target, in the world that it begins in. -/
structure Attempt where
  world : World
  target : Target
  line : Nat

def Attempt.result (attempt : Attempt) : EStateM.Result RuntimeError World Unit :=
  Action.readTarget attempt.line attempt.target attempt.world

/-- The attempts of a `read` on a line: one target after the other, up to one that is not filled. -/
def attemptsOf (line : Nat) (world : World) : List Target → List Attempt
  | [] => []
  | target :: rest => ⟨world, target, line⟩ ::
    match Action.readTarget line target world with
    | .ok _ after => attemptsOf line after rest
    | .error _ _ => []

def Event.attempts : Event → List Attempt
  | ⟨world, .act (.read targets line)⟩ => attemptsOf line world targets
  | _ => []

def Engine.attempts (engine : Engine) (steps : Nat) : List Attempt :=
  (engine.trace steps).flatMap Event.attempts

/-- The attempts take one line after the other. -/
inductive Consumes : List UInt8 → List Attempt → List UInt8 → Prop
  | nil (input : List UInt8) : Consumes input [] input
  | cons {attempt : Attempt} {rest : List Attempt} {input last : List UInt8}
      (begins : attempt.world.input = input)
      (takes : (stateAfter attempt.result).input = (splitLine input).2)
      (others : Consumes (splitLine input).2 rest last) : Consumes input (attempt :: rest) last

namespace Consumes

variable {input between last : List UInt8} {attempts others : List Attempt}

theorem append (first : Consumes input attempts between) (rest : Consumes between others last) :
    Consumes input (attempts ++ others) last := by
  induction first with
  | nil => exact rest
  | cons begins takes _ ih => exact .cons begins takes (ih rest)

/-- As many lines are left as were not taken. -/
theorem linesOf_last (consumes : Consumes input attempts last) :
    linesOf last = (linesOf input).drop attempts.length := by
  induction consumes with
  | nil => rfl
  | cons _ _ _ ih =>
    rw [ih, linesOf_splitLine, List.drop_tail, List.length_cons]

theorem last_eq (consumes : Consumes input attempts last) :
    last = ((linesOf input).drop attempts.length).flatten := by
  rw [← consumes.linesOf_last, flatten_linesOf]

/-- The attempt after so many others finds the lines that these have not taken, and takes the first
of them. -/
theorem linesOf_getElem (consumes : Consumes input attempts last) (i : Nat)
    (inside : i < attempts.length) :
    linesOf attempts[i].world.input = (linesOf input).drop i ∧
      linesOf (stateAfter attempts[i].result).input = (linesOf input).drop (i + 1) := by
  induction consumes generalizing i with
  | nil => exact absurd inside (Nat.not_lt_zero i)
  | @cons attempt rest input last begins takes others ih =>
    cases i with
    | zero =>
      simp only [List.getElem_cons_zero, begins, takes, linesOf_splitLine, List.drop_zero,
        List.drop_one, Nat.zero_add, and_self]
    | succ i =>
      have later := ih i (Nat.lt_of_succ_lt_succ inside)
      rw [linesOf_splitLine, List.drop_tail, List.drop_tail] at later
      exact later

theorem getElem (consumes : Consumes input attempts last) (i : Nat) (inside : i < attempts.length) :
    attempts[i].world.input = ((linesOf input).drop i).flatten ∧
      (stateAfter attempts[i].result).input = ((linesOf input).drop (i + 1)).flatten := by
  obtain ⟨found, left⟩ := consumes.linesOf_getElem i inside
  rw [← found, ← left, flatten_linesOf, flatten_linesOf]
  exact ⟨rfl, rfl⟩

/-- There are more attempts than lines exactly if one of them finds no input. -/
theorem exists_nil_iff (consumes : Consumes input attempts last) :
    (∃ attempt ∈ attempts, attempt.world.input = []) ↔
      (linesOf input).length < attempts.length := by
  constructor
  · intro found
    obtain ⟨attempt, member, lacks⟩ := found
    obtain ⟨i, inside, rfl⟩ := List.getElem_of_mem member
    have none := (consumes.linesOf_getElem i inside).1
    rw [lacks] at none
    have few := List.drop_eq_nil_iff.1 none.symm
    omega
  · intro more
    refine ⟨attempts[(linesOf input).length], List.getElem_mem more, ?_⟩
    rw [(consumes.getElem _ more).1, List.drop_length]
    rfl

end Consumes

def RuntimeError.Exhausts (e : RuntimeError) : Prop :=
  ∃ name, e.fault = .inputExhausted name

def Exhausted {σ α : Type} (result : EStateM.Result RuntimeError σ α) : Prop :=
  ∃ e last, result = .error e last ∧ e.Exhausts

theorem not_exhausted_ok {σ α : Type} (a : α) (s : σ) :
    ¬ Exhausted (.ok a s : EStateM.Result RuntimeError σ α) := by
  intro exhausted
  obtain ⟨e, last, failed, _⟩ := exhausted
  cases failed

theorem exhausted_error_iff {σ α : Type} {e : RuntimeError} {s : σ} :
    Exhausted (.error e s : EStateM.Result RuntimeError σ α) ↔ e.Exhausts := by
  constructor
  · intro exhausted
    obtain ⟨_, _, failed, lacks⟩ := exhausted
    cases failed
    exact lacks
  · intro lacks
    exact ⟨e, s, rfl, lacks⟩

theorem not_exhausts_of_isEvaluation {e : RuntimeError} (evaluation : e.fault.IsEvaluation) :
    ¬ e.Exhausts := by
  intro lacks
  obtain ⟨name, fault⟩ := lacks
  rw [fault] at evaluation
  exact evaluation

/-- The action takes no input and does not fail for lack of it. -/
def Action.Quiet {α : Type} (action : Action α) : Prop :=
  ∀ input, action.Keeps (·.input = input) (fun _ => True) (¬ ·.Exhausts)

namespace Action.Quiet

variable {α β : Type}

theorem apply {action : Action α} (quiet : action.Quiet) (world : World) :
    (stateAfter (action world)).input = world.input ∧ ¬ Exhausted (action world) := by
  have kept := quiet world.input world rfl
  generalize action world = result at kept ⊢
  cases result with
  | ok a after => exact ⟨kept.2, not_exhausted_ok a after⟩
  | error e after =>
    rw [exhausted_error_iff]
    exact ⟨kept.2, kept.1⟩

theorem pure (a : α) : (Pure.pure a : Action α).Quiet :=
  fun _ => .pure trivial

theorem bind {action : Action α} {next : α → Action β} (first : action.Quiet)
    (rest : ∀ a, (next a).Quiet) : (action >>= next).Quiet :=
  fun input => (first input).bind fun a _ => rest a input

theorem forM {action : β → Action Unit} (items : List β) (each : ∀ item, (action item).Quiet) :
    Action.Quiet (items.forM action) :=
  fun input => .forM fun item _ => each item input

theorem evaluates (e : Expr) (env : Environment) :
    Yields (fun _ => True) (¬ ·.Exhausts) (e.eval env) :=
  (e.computes_eval env).mono (fun _ value => value) fun _ => not_exhausts_of_isEvaluation

theorem evaluate (e : Expr) : (evaluate e).Quiet :=
  fun _ => .evaluate fun world _ => evaluates e world.environment

theorem store (target : Target) (value : Value) : (store target value).Quiet := by
  intro input
  apply Keeps.store
  intro world same
  apply (world.environment.computes_store target value).mono
  · exact fun _ _ => same
  · exact fun _ => not_exhausts_of_isEvaluation

theorem initial (size : Option Expr) (type : ElementType) (line : Nat) :
    (initial size type line).Quiet := by
  cases size with
  | none => exact .pure _
  | some size =>
    apply Quiet.bind (.evaluate size)
    intro length input
    apply Keeps.vector
    intro memory
    apply ((type.vector_yields memory length).onLine line).mono
    · exact fun _ value => value
    · intro e sized lacks
      obtain ⟨name, fault⟩ := lacks
      obtain ⟨size, other⟩ := sized
      cases fault.symm.trans other

theorem declare (value : Value) (name : String) : (declare value name).Quiet :=
  fun _ _ same => ⟨trivial, same⟩

theorem not_exhausts_writeLimit (line : Nat) :
    ¬ (⟨.console .writeLimit, line⟩ : RuntimeError).Exhausts := by
  intro lacks
  obtain ⟨name, fault⟩ := lacks
  cases fault

theorem emit (line : Nat) (text : String) : (emit line text).Quiet :=
  fun _ => .emit (fun _ _ same => same) (not_exhausts_writeLimit line) text

theorem writeItem (line : Nat) (item : WriteItem) : (writeItem line item).Quiet :=
  fun _ => .writeItem (fun _ _ same => same) (not_exhausts_writeLimit line)
    fun e _ world _ => evaluates e world.environment

end Action.Quiet

/-- Nothing that is written into the output fails. -/
def World.Unfailing (world : World) : Prop :=
  world.output.limit = none ∧ ∀ size, world.output.failFlush size = false

theorem World.SameSettings.unfailing {one other : World} (same : one.SameSettings other)
    (unfailing : one.Unfailing) : other.Unfailing :=
  ⟨same.2.1.trans unfailing.1, same.flushes unfailing.2⟩

/-- The attempts take their lines from the world, and lead to an error for lack of input exactly if
one of them finds none. -/
structure Draws {α : Type} (world : World) (attempts : List Attempt)
    (result : EStateM.Result RuntimeError World α) : Prop where
  consumes : Consumes world.input attempts (stateAfter result).input
  exhausted : Exhausted result ↔ ∃ attempt ∈ attempts, attempt.world.input = []

theorem Action.Quiet.draws {α : Type} {action : Action α} (quiet : action.Quiet) (world : World) :
    Draws world [] (action world) := by
  obtain ⟨same, present⟩ := quiet.apply world
  constructor
  · rw [same]
    exact .nil world.input
  · simp only [present, List.not_mem_nil, false_and, exists_false]

theorem Action.prompt_unfailing {world : World} (unfailing : world.Unfailing) (line : Nat)
    (name : String) : ∃ output, prompt line name world = .ok () { world with output } := by
  rw [prompt_apply]
  by_cases asks : world.prompts = true
  · rw [if_pos asks]
    refine ⟨world.output.add (promptOf true name), ?_⟩
    simp only [Bind.bind, EStateM.bind, emit_unlimited unfailing.1, flush_apply, Sink.add,
      Sink.refusesFlush, unfailing.2, Bool.false_eq_true, if_false]
  · rw [if_neg asks]
    exact ⟨world.output, rfl⟩

/-- An attempt takes a line. It lacks one exactly if the input is at its end. -/
theorem Action.readTarget_takes {world : World} (unfailing : world.Unfailing) (line : Nat)
    (target : Target) :
    (stateAfter (readTarget line target world)).input = (splitLine world.input).2 ∧
      (Exhausted (readTarget line target world) ↔ world.input = []) := by
  obtain ⟨output, prompted⟩ := prompt_unfailing unfailing line target.name
  simp only [readTarget, Bind.bind, EStateM.bind, prompted, nextLine_apply]
  by_cases empty : world.input = []
  · have noText : String.fromUTF8? ([] : List UInt8).toByteArray = some "" := rfl
    simp only [empty, splitLine, noText, if_true, exhausted_error_iff, iff_true]
    exact ⟨rfl, target.name, rfl⟩
  · have filled : (splitLine world.input).1 ≠ [] := fun none => empty (splitLine_eq_nil_iff.1 none)
    cases String.fromUTF8? (splitLine world.input).1.toByteArray with
    | none =>
      simp only [exhausted_error_iff, empty, iff_false]
      refine ⟨rfl, ?_⟩
      intro lacks
      obtain ⟨name, fault⟩ := lacks
      cases fault
    | some text =>
      simp only [if_neg filled, empty, iff_false]
      exact (Quiet.store target (.ofLine text)).apply
        { world with input := (splitLine world.input).2, output }

theorem Action.forM_cons_apply {α : Type} (each : α → Action Unit) (item : α) (items : List α)
    (world : World) :
    (item :: items).forM each world =
      match each item world with
      | .ok _ after => items.forM each after
      | .error e after => .error e after := by
  show (each item >>= fun _ => items.forM each) world = _
  simp only [Bind.bind, EStateM.bind]
  cases each item world <;> rfl

/-- The targets of a `read` are attempted until one of them is not filled. -/
theorem Action.readTargets_draws {world : World} (unfailing : world.Unfailing) (line : Nat)
    (targets : List Target) :
    Draws world (attemptsOf line world targets) (targets.forM (readTarget line) world) := by
  induction targets generalizing world with
  | nil => exact (Quiet.pure ()).draws world
  | cons target rest ih =>
    obtain ⟨takes, lacks⟩ := readTarget_takes unfailing line target
    have settings := Within.readTarget World.SameSettings.allows line target world
    have taken : (stateAfter (⟨world, target, line⟩ : Attempt).result).input =
      (splitLine world.input).2 := takes
    rw [forM_cons_apply, attemptsOf]
    generalize readTarget line target world = result at takes lacks settings ⊢
    cases result with
    | ok _ after =>
      have later := ih (settings.unfailing unfailing)
      have present : world.input ≠ [] := fun empty => not_exhausted_ok _ _ (lacks.2 empty)
      constructor
      · refine .cons rfl taken ?_
        rw [← takes]
        exact later.consumes
      · apply later.exhausted.trans
        simp only [List.mem_cons, exists_eq_or_imp, present, false_or]
        exact Iff.rfl
    | error e after =>
      -- The targets behind the one that fails are not attempted.
      constructor
      · refine .cons rfl taken ?_
        rw [← takes]
        exact .nil _
      · rw [exhausted_error_iff] at lacks ⊢
        simp only [lacks, List.mem_singleton, exists_eq_left]

theorem Effect.draws {world : World} (unfailing : world.Unfailing) (effect : Effect) :
    Draws world (Event.attempts ⟨world, .act effect⟩) (effect.run world) := by
  cases effect with
  | read targets line => exact Action.readTargets_draws unfailing line targets
  | declare names size type line =>
    have quiet : (Effect.declare names size type line).run.Quiet :=
      .bind (.initial size type line) fun value => .forM names (.declare value)
    exact quiet.draws world
  | assign target e =>
    have quiet : (Effect.assign target e).run.Quiet :=
      .bind (.evaluate e) fun value => .store target value
    exact quiet.draws world
  | write items line =>
    have quiet : (Effect.write items line).run.Quiet :=
      .bind (.forM items (.writeItem line)) fun _ => .emit line "\n"
    exact quiet.draws world

/-- Only the effect of a statement draws from the input. -/
theorem Statement.Execution.draws {world : World} {s : Statement} {operations : List Operation}
    {result : EStateM.Result RuntimeError World Flow} (unfailing : world.Unfailing)
    (execution : Execution world s operations result) :
    Draws world (operations.flatMap fun operation => Event.attempts ⟨world, operation⟩) result := by
  have untested : ∀ {condition : Expr} {e : RuntimeError},
      condition.eval world.environment = .error e → Draws world []
        (.error e world : EStateM.Result RuntimeError World Flow) := by
    intro condition e failed
    have computes := condition.computes_eval world.environment
    rw [failed] at computes
    have present := not_exhausts_of_isEvaluation computes
    refine ⟨.nil world.input, ?_⟩
    simp only [exhausted_error_iff, present, List.not_mem_nil, false_and, exists_false]
  induction execution with
  | block | loop | goto | label | empty | skipped => exact (Action.Quiet.pure _).draws world
  | untested failed | undecided failed => exact untested failed
  | @done _ effect after acts ran =>
    have draws := effect.draws unfailing
    rw [ran] at draws
    rw [List.flatMap_singleton]
    refine ⟨draws.consumes, ?_⟩
    rw [← draws.exhausted]
    exact iff_of_false (not_exhausted_ok _ _) (not_exhausted_ok _ _)
  | @failed _ effect e after acts ran =>
    have draws := effect.draws unfailing
    rw [ran] at draws
    rw [List.flatMap_singleton]
    refine ⟨draws.consumes, ?_⟩
    rw [← draws.exhausted, exhausted_error_iff, exhausted_error_iff]
  | chosen _ _ _ ih | branch _ _ _ ih | other _ _ _ ih => exact ih

namespace Engine

def nextAttempts (engine : Engine) : List Attempt :=
  engine.operations.flatMap fun operation => Event.attempts ⟨engine.world, operation⟩

variable {engine : Engine}

/-- A step that executes nothing draws nothing from the input. -/
theorem draws_of_idle {outcome : Outcome Bool} (idle : engine.operations = [])
    (same : outcome.engine.world = engine.world) (present : ¬ Exhausted outcome) :
    Consumes engine.world.input engine.nextAttempts outcome.engine.world.input ∧
      (Exhausted outcome ↔ ∃ attempt ∈ engine.nextAttempts, attempt.world.input = []) := by
  rw [nextAttempts, idle, same]
  refine ⟨.nil engine.world.input, ?_⟩
  simp only [present, List.flatMap_nil, List.not_mem_nil, false_and, exists_false]

/-- The attempts in a step take one line after the other. The step fails for lack of input exactly
if one of them finds none. -/
theorem step_draws (unfailing : engine.world.Unfailing) :
    Consumes engine.world.input engine.nextAttempts engine.step.engine.world.input ∧
      (Exhausted engine.step ↔ ∃ attempt ∈ engine.nextAttempts, attempt.world.input = []) := by
  have move := engine.step_move
  generalize engine.step = outcome at move ⊢
  cases move with
  | land jump marker pending found =>
    exact draws_of_idle (by simp only [operations, pending]) rfl (not_exhausted_ok _ _)
  | lose jump pending missing =>
    refine draws_of_idle (by simp only [operations, pending]) rfl ?_
    rw [exhausted_error_iff]
    intro lacks
    obtain ⟨name, fault⟩ := lacks
    cases fault
  | rest free nowhere =>
    exact draws_of_idle (by simp only [operations, free, nowhere]) rfl (not_exhausted_ok _ _)
  | restart frame outer free stands atEnd isLoop =>
    exact draws_of_idle (by simp only [operations, free, stands, atEnd]) rfl (not_exhausted_ok _ _)
  | close frame outer free stands atEnd isBlock =>
    exact draws_of_idle (by simp only [operations, free, stands, atEnd]) rfl (not_exhausted_ok _ _)
  | execute frame outer s flow world free stands here executed =>
    have draws := (s.execution engine.world).draws unfailing
    rw [executed] at draws
    simp only [nextAttempts, operations, free, stands, here]
    refine ⟨?_, ?_⟩
    · cases flow <;> exact draws.consumes
    · rw [← draws.exhausted]
      exact iff_of_false (not_exhausted_ok _ _) (not_exhausted_ok _ _)
  | fail frame outer s e world free stands here failed =>
    have draws := (s.execution engine.world).draws unfailing
    rw [failed] at draws
    simp only [nextAttempts, operations, free, stands, here]
    refine ⟨draws.consumes, ?_⟩
    rw [← draws.exhausted, exhausted_error_iff, exhausted_error_iff]

theorem attempts_succ (engine : Engine) (n : Nat) :
    engine.attempts (n + 1) = engine.nextAttempts ++
      match engine.step with
      | .ok true next => next.attempts n
      | _ => [] := by
  simp only [attempts, trace, nextAttempts, List.flatMap_append, List.flatMap_map]
  congr 1
  cases engine.step with
  | ok goes next => cases goes <;> rfl
  | error e last => rfl

def Progress.Exhausted : Progress → Prop
  | running _ => False
  | ended outcome => GotoLang.Exhausted outcome

theorem not_exhausted_finish (engine : Engine) : ¬ Exhausted engine.finish := by
  simp only [finish, Action.flush_apply]
  by_cases fails : engine.world.output.refusesFlush = true
  · simp only [if_pos fails, exhausted_error_iff]
    intro lacks
    obtain ⟨name, fault⟩ := lacks
    cases fault
  · simp only [if_neg fails]
    exact not_exhausted_ok _ _

/-- The attempts in a run take one line after the other. The run ends for lack of input exactly if
one of them finds none. -/
theorem runFor_draws (unfailing : engine.world.Unfailing) (n : Nat) :
    Consumes engine.world.input (engine.attempts n) (engine.runFor n).engine.world.input ∧
      ((engine.runFor n).Exhausted ↔ ∃ attempt ∈ engine.attempts n, attempt.world.input = []) := by
  induction n generalizing engine with
  | zero =>
    refine ⟨.nil _, ?_⟩
    simp only [runFor, Progress.Exhausted, attempts, trace, List.flatMap_nil, List.not_mem_nil,
      false_and, exists_false]
  | succ n ih =>
    obtain ⟨consumes, exhausted⟩ := step_draws unfailing
    have settings := step_within World.SameSettings.allows engine
    rw [attempts_succ, runFor_succ_world, runFor]
    generalize engine.step = outcome at consumes exhausted settings ⊢
    cases outcome with
    | ok goes next =>
      have present : ¬ ∃ attempt ∈ engine.nextAttempts, attempt.world.input = [] := by
        rw [← exhausted]
        exact not_exhausted_ok goes next
      cases goes with
      | true =>
        obtain ⟨later, lacks⟩ := ih (settings.unfailing unfailing)
        refine ⟨consumes.append later, ?_⟩
        simp only [List.mem_append, or_and_right, exists_or, present, false_or]
        exact lacks
      | false =>
        simp only [List.append_nil]
        exact ⟨consumes, iff_of_false (not_exhausted_finish next) present⟩
    | error e last =>
      rw [exhausted_error_iff] at exhausted
      simp only [List.append_nil]
      exact ⟨consumes, exhausted_error_iff.trans exhausted⟩

end Engine

end GotoLang
