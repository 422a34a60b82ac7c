import GotoLang.Proofs.Coupling
import GotoLang.Proofs.ReadAttempt
import GotoLang.Proofs.TextRun

set_option autoImplicit false

namespace GotoLang

def insertAt (place : Nat) (part text : ByteArray) : ByteArray :=
  text.extract 0 place ++ part ++ text.extract place text.size

/-- The output with a prompt inserted where each of the attempts begins. The last one is inserted
first, so that the places of the others stay what they were. -/
def insertPrompts (attempts : List Attempt) (output : ByteArray) : ByteArray :=
  attempts.foldr (fun attempt =>
    insertAt attempt.world.size (promptOf true attempt.target.name).toUTF8) output

/-- What is inserted at a place stands between the two sides of that place. -/
theorem insertAt_between (front part back : ByteArray) :
    insertAt front.size part (front ++ back) = front ++ part ++ back := by
  rw [insertAt, ByteArray.extract_append_eq_left rfl,
    ByteArray.extract_append_eq_right rfl ByteArray.size_append]

theorem insertAt_size (part text : ByteArray) : insertAt text.size part text = text ++ part := by
  have atEnd := insertAt_between text part .empty
  rwa [ByteArray.append_empty, ByteArray.append_empty] at atEnd

/-- What is inserted into a text stays there when the text grows. -/
theorem insertAt_append {place : Nat} {text : ByteArray} (inside : place ≤ text.size)
    (part more : ByteArray) :
    insertAt place part (text ++ more) = insertAt place part text ++ more := by
  have sides : text.extract 0 place ++ text.extract place text.size = text := by
    rw [← ByteArray.extract_eq_extract_append_extract place (Nat.zero_le place) inside,
      ByteArray.extract_zero_size]
  have front : (text.extract 0 place).size = place := by
    rw [ByteArray.size_extract, Nat.min_eq_left inside, Nat.sub_zero]
  generalize text.extract 0 place = before, text.extract place text.size = behind at sides front
  subst front sides
  rw [ByteArray.append_assoc, insertAt_between, insertAt_between]
  simp only [ByteArray.append_assoc]

theorem le_size_insertAt {place : Nat} {text : ByteArray} (inside : place ≤ text.size)
    (part : ByteArray) : text.size ≤ (insertAt place part text).size := by
  simp only [insertAt, ByteArray.size_append, ByteArray.size_extract]
  omega

theorem le_size_insertPrompts {attempts : List Attempt} {output : ByteArray}
    (inside : ∀ attempt ∈ attempts, attempt.world.size ≤ output.size) :
    output.size ≤ (insertPrompts attempts output).size := by
  induction attempts with
  | nil => exact Nat.le_refl _
  | cons attempt attempts ih =>
    obtain ⟨first, others⟩ := List.forall_mem_cons.1 inside
    have rest := ih others
    exact Nat.le_trans rest (le_size_insertAt (Nat.le_trans first rest) _)

/-- Prompts that were inserted stay where they are when the output grows. -/
theorem insertPrompts_append {attempts : List Attempt} {output : ByteArray}
    (inside : ∀ attempt ∈ attempts, attempt.world.size ≤ output.size) (more : ByteArray) :
    insertPrompts attempts (output ++ more) = insertPrompts attempts output ++ more := by
  induction attempts with
  | nil => rfl
  | cons attempt attempts ih =>
    obtain ⟨first, others⟩ := List.forall_mem_cons.1 inside
    have place := Nat.le_trans first (le_size_insertPrompts others)
    simp only [insertPrompts, List.foldr_cons] at ih place ⊢
    rw [ih others, insertAt_append place]

/-- The prompt of an attempt at the end of the output stands behind all the others. -/
theorem insertPrompts_concat {attempts : List Attempt} {world : World}
    (inside : ∀ attempt ∈ attempts, attempt.world.size ≤ world.size) (target : Target)
    (line : Nat) :
    insertPrompts (attempts ++ [⟨world, target, line⟩]) world.output.written =
      insertPrompts attempts world.output.written ++ (promptOf true target.name).toUTF8 := by
  rw [← insertPrompts_append inside, insertPrompts, List.foldr_append, List.foldr_cons,
    List.foldr_nil, World.size, insertAt_size]
  rfl

/-- The world with prompts switched on, and with those of the attempts in its output. -/
def World.prompted (world : World) (attempts : List Attempt) : World :=
  { world with
    output := { world.output with written := insertPrompts attempts world.output.written }
    prompts := true }

@[simp] theorem World.prompted_written (world : World) (attempts : List Attempt) :
    (world.prompted attempts).output.written = insertPrompts attempts world.output.written := rfl

def Engine.prompted (engine : Engine) (attempts : List Attempt) : Engine :=
  { engine with world := engine.world.prompted attempts }

def Engine.Progress.prompted (attempts : List Attempt) : Progress → Progress
  | .running engine => .running (engine.prompted attempts)
  | .ended outcome => .ended (mapState (·.prompted attempts) outcome)

/-- The attempts came one after the other, and each saw the output as it was by then. -/
structure Recorded (attempts : List Attempt) (world : World) : Prop where
  ordered : attempts.Pairwise fun one other => one.world.Extends other.world
  before : ∀ attempt ∈ attempts, attempt.world.Extends world

namespace Recorded

variable {attempts : List Attempt} {world after : World}

theorem inside (recorded : Recorded attempts world) :
    ∀ attempt ∈ attempts, attempt.world.size ≤ world.size :=
  fun attempt member => (recorded.before attempt member).size_le

theorem leads (recorded : Recorded attempts world) (more : world.Extends after) :
    Recorded attempts after where
  ordered := recorded.ordered
  before attempt member := trans_of World.Extends (recorded.before attempt member) more

theorem concat (recorded : Recorded attempts world) (target : Target) (line : Nat) :
    Recorded (attempts ++ [⟨world, target, line⟩]) world where
  ordered := by
    apply List.pairwise_append.2
    refine ⟨recorded.ordered, List.pairwise_singleton _ _, ?_⟩
    intro attempt member last isLast
    rw [List.mem_singleton.1 isLast]
    exact recorded.before attempt member
  before := by
    intro attempt member
    rcases List.mem_append.1 member with early | last
    · exact recorded.before attempt early
    · rw [List.mem_singleton.1 last]
      exact refl_of World.Extends world

end Recorded

/-- A world without prompts beside the same one with the prompts of the attempts until then. -/
def promptedBy (attempts : List Attempt) : Coupling where
  worlds world twin := world.prompts = false ∧ world.Unfailing ∧ Recorded attempts world ∧
    twin = world.prompted attempts
  errors := Eq
  parts _ := False

namespace Action

variable {α : Type} {attempts : List Attempt}

/-- An action that does not ask keeps step if it does the same with prompts as without. -/
theorem promptedBy_of_blind {action : Action α}
    (within : ∀ r, IsPreorder World r → World.Allows r → action.Within r)
    (blind : ∀ world, world.Unfailing → Recorded attempts world →
      action (world.prompted attempts) = mapState (·.prompted attempts) (action world)) :
    (promptedBy attempts).Actions Eq action action := by
  intro world twin related
  obtain ⟨silent, unfailing, recorded, rfl⟩ := related
  have settings := within _ inferInstance World.SameSettings.allows world
  have grows := within _ inferInstance World.Extends.allows world
  rw [blind world unfailing recorded]
  generalize action world = result at settings grows ⊢
  have after : (promptedBy attempts).worlds (stateAfter result)
      ((stateAfter result).prompted attempts) :=
    ⟨settings.1.trans silent, settings.unfailing unfailing, recorded.leads grows, rfl⟩
  cases result with
  | ok a last => exact .ok rfl after
  | error e last => exact .error rfl after

theorem promptedBy_evaluate (e : Expr) :
    (promptedBy attempts).Actions Eq (evaluate e) (evaluate e) := by
  refine .look (fun _ => rfl) fun world twin related => ?_
  rw [related.2.2.2, World.prompted]

theorem promptedBy_vector (type : ElementType) (length : Value) (line : Nat) :
    (promptedBy attempts).Actions Eq (vector type length line) (vector type length line) := by
  refine .look (fun _ => rfl) fun world twin related => ?_
  rw [related.2.2.2, World.prompted]

theorem promptedBy_store (target : Target) (value : Value) :
    (promptedBy attempts).Actions Eq (store target value) (store target value) := by
  apply promptedBy_of_blind
  · exact fun _ _ allows => .store allows target value
  · intro world _ _
    simp only [store_apply, World.prompted]
    cases world.environment.store target value <;> rfl

theorem promptedBy_emit (line : Nat) (text : String) :
    (promptedBy attempts).Actions Eq (emit line text) (emit line text) := by
  apply promptedBy_of_blind
  · exact fun _ _ allows => .emit allows line text
  · intro world unfailing recorded
    have grown := insertPrompts_append recorded.inside text.toUTF8
    have unlimited : (world.prompted attempts).output.limit = none := unfailing.1
    rw [emit_unlimited unfailing.1, emit_unlimited unlimited]
    simp only [mapState, World.prompted, Sink.add, grown]

theorem promptedBy_flush (line : Nat) :
    (promptedBy attempts).Actions Eq (flush line) (flush line) := by
  apply promptedBy_of_blind
  · exact fun _ _ _ => .flush line
  · intro world unfailing _
    have flushes : (world.prompted attempts).output.refusesFlush = false := unfailing.2 _
    rw [flush_apply, flush_apply, flushes, show world.output.refusesFlush = false from unfailing.2 _]
    rfl

theorem promptedBy_nextLine (line : Nat) (name : String) :
    (promptedBy attempts).Actions Eq (nextLine line name) (nextLine line name) := by
  apply promptedBy_of_blind
  · exact fun _ _ allows => .nextLine allows line name
  · intro world _ _
    simp only [nextLine_apply, World.prompted]
    cases String.fromUTF8? (splitLine world.input).1.toByteArray with
    | none => rfl
    | some text =>
      simp only
      split <;> rfl

end Action

theorem promptedBy_kept (attempts : List Attempt) : (promptedBy attempts).KeptOutsideReads where
  error _ := rfl
  evaluate := Action.promptedBy_evaluate
  vector := Action.promptedBy_vector
  declare value name := Action.promptedBy_of_blind
    (fun _ _ allows => .declare allows value name) fun _ _ _ => rfl
  store := Action.promptedBy_store
  emit := Action.promptedBy_emit
  flush := Action.promptedBy_flush

section Attempts

variable {attempts : List Attempt} {world twin : World}

/-- With prompts on, an attempt writes one and then does what it does without. -/
theorem readTarget_promptedBy (related : (promptedBy attempts).worlds world twin) (line : Nat)
    (target : Target) :
    let later := promptedBy (attempts ++ [⟨world, target, line⟩])
    later.Results later.worlds Eq (Action.readTarget line target world)
      (Action.readTarget line target twin) := by
  intro later
  obtain ⟨silent, unfailing, recorded, rfl⟩ := related
  have mute : Action.prompt line target.name world = .ok () world := by
    rw [Action.prompt_apply, silent]
    rfl
  have asks : Action.prompt line target.name (world.prompted attempts) =
      .ok () (world.prompted (attempts ++ [⟨world, target, line⟩])) := by
    have placed := insertPrompts_concat recorded.inside target line
    have unlimited : (world.prompted attempts).output.limit = none := unfailing.1
    have prompts : (world.prompted attempts).prompts = true := rfl
    have flushes (bytes : ByteArray) :
        Sink.refusesFlush { (world.prompted attempts).output with written := bytes } = false :=
      unfailing.2 bytes.size
    rw [Action.prompt_apply, if_pos prompts]
    simp only [Bind.bind, EStateM.bind, Action.emit_unlimited unlimited, Action.flush_apply,
      Sink.add, flushes, Bool.false_eq_true, if_false]
    simp only [World.prompted, placed]
  have fills : later.Actions Eq
      (do let text ← Action.nextLine line target.name; Action.store target (.ofLine text))
      (do let text ← Action.nextLine line target.name; Action.store target (.ofLine text)) := by
    apply Coupling.Actions.bind (Action.promptedBy_nextLine line target.name)
    intro text _ same
    exact same ▸ Action.promptedBy_store target (.ofLine text)
  have both := fills world _ ⟨silent, unfailing, recorded.concat target line, rfl⟩
  simpa only [Action.readTarget, Bind.bind, EStateM.bind, mute, asks] using both

theorem readTargets_promptedBy (related : (promptedBy attempts).worlds world twin) (line : Nat)
    (targets : List Target) :
    let later := promptedBy (attempts ++ attemptsOf line world targets)
    later.Results later.worlds Eq (targets.forM (Action.readTarget line) world)
      (targets.forM (Action.readTarget line) twin) := by
  induction targets generalizing attempts world twin with
  | nil =>
    rw [attemptsOf, List.append_nil]
    exact .ok rfl related
  | cons target rest ih =>
    have both := readTarget_promptedBy related line target
    rw [attemptsOf, Action.forM_cons_apply, Action.forM_cons_apply]
    generalize Action.readTarget line target world = result,
      Action.readTarget line target twin = resultTwin at both ⊢
    cases both with
    | ok _ after =>
      have later := ih after
      rw [List.append_assoc] at later
      exact later
    | error same after => exact .error same after
    | parted ends => exact ends.elim

theorem Effect.run_promptedBy (related : (promptedBy attempts).worlds world twin)
    (effect : Effect) :
    let later := promptedBy (attempts ++ Event.attempts ⟨world, .act effect⟩)
    later.Results later.worlds Eq (effect.run world) (effect.run twin) := by
  cases effect with
  | read targets line => exact readTargets_promptedBy related line targets
  | declare | assign | write =>
    simp only [Event.attempts, List.append_nil]
    apply (promptedBy_kept attempts).effect _ _ world twin related
    intro _ _ reads
    cases reads

/-- A statement makes the same attempts with prompts as without. -/
theorem Statement.execute_promptedBy (related : (promptedBy attempts).worlds world twin)
    (s : Statement) :
    let later := promptedBy (attempts ++
      (s.operations world).flatMap fun operation => Event.attempts ⟨world, operation⟩)
    later.Results later.worlds Eq (s.execute world) (s.execute twin) := by
  have acts : ∀ {s : Statement} {effect : Effect}, s.effect? = some effect →
      s.operations world = [.act effect] →
      let later := promptedBy (attempts ++
        (s.operations world).flatMap fun operation => Event.attempts ⟨world, operation⟩)
      later.Results later.worlds Eq (s.execute world) (s.execute twin) := by
    intro s effect acts performs
    have both := effect.run_promptedBy related
    rw [performs, List.flatMap_singleton, execute_of_effect? acts]
    simp only [Bind.bind, EStateM.bind]
    generalize effect.run world = result, effect.run twin = resultTwin at both ⊢
    cases both with
    | ok same after => exact .ok rfl after
    | error same after => exact .error same after
    | parted ends => exact ends.elim
  have idle : (promptedBy (attempts ++ [])).worlds world twin := by rwa [List.append_nil]
  have environment : twin.environment = world.environment := by rw [related.2.2.2]; rfl
  induction s with
  | block | loop | goto | label | empty => exact .ok rfl idle
  | declare | assign | read | write => exact acts rfl rfl
  | ifThen condition branch line ih =>
    simp only [execute, evaluate_bind, operations, environment]
    cases condition.eval world.environment with
    | error e => exact .error rfl idle
    | ok value =>
      by_cases holds : value.holds = true
      · simp only [if_pos holds]
        exact ih
      · simp only [if_neg holds]
        exact .ok rfl idle
  | ifThenElse condition branch other line ihBranch ihOther =>
    simp only [execute, evaluate_bind, operations, environment]
    cases condition.eval world.environment with
    | error e => exact .error rfl idle
    | ok value =>
      by_cases holds : value.holds = true
      · simp only [if_pos holds]
        exact ihBranch
      · simp only [if_neg holds]
        exact ihOther

end Attempts

namespace Engine

variable {attempts : List Attempt} {one other : Engine}

theorem step_promptedBy (related : (promptedBy attempts).Engines one other) :
    let later := promptedBy (attempts ++ one.nextAttempts)
    later.Results later.Engines Eq one.step other.step := by
  obtain ⟨labels, position, jump?, world, line⟩ := one
  have idle := (promptedBy_kept attempts).step related
  cases jump? with
  | some jump =>
    simp only [nextAttempts, operations, List.flatMap_nil, List.append_nil]
    apply idle
    intro _ _ _ free
    cases free
  | none =>
    cases position with
    | nil =>
      simp only [nextAttempts, operations, List.flatMap_nil, List.append_nil]
      apply idle
      intro _ _ _ _ stands
      cases stands
    | cons frame outer =>
      cases here : frame.current? with
      | some s =>
        obtain ⟨twin, worlds, rfl⟩ := related
        simp only [nextAttempts, operations, step, here]
        exact .perform (s.execute_promptedBy worlds)
      | none =>
        simp only [nextAttempts, operations, here, List.flatMap_nil, List.append_nil]
        apply idle
        intro _ _ _ _ stands executes
        cases stands
        cases here.symm.trans executes

/-- With prompts a run comes as far as without, in the same steps. -/
theorem runFor_promptedBy (related : (promptedBy attempts).Engines one other) (steps : Nat) :
    (promptedBy (attempts ++ one.attempts steps)).Progresses (one.runFor steps)
      (other.runFor steps) := by
  induction steps generalizing attempts one other with
  | zero =>
    have none : one.attempts 0 = [] := rfl
    rw [none, List.append_nil]
    exact .running related
  | succ steps ih =>
    have both := step_promptedBy related
    rw [attempts_succ, ← List.append_assoc]
    simp only [runFor]
    generalize one.step = outcome, other.step = outcomeTwin at both ⊢
    cases both with
    | @ok goes _ next _ same after =>
      subst same
      cases goes with
      | true => exact ih after
      | false =>
        rw [List.append_nil]
        exact .ended ((promptedBy_kept _).finish after)
    | error same after =>
      rw [List.append_nil]
      exact .ended (.error same after)
    | parted ends => exact ends.elim

/-- Engines that keep step do so with the prompts of the attempts until then. -/
theorem eq_prompted_of_promptedBy (related : (promptedBy attempts).Engines one other) :
    Recorded attempts one.world ∧ other = one.prompted attempts := by
  obtain ⟨twin, ⟨_, _, recorded, rfl⟩, rfl⟩ := related
  exact ⟨recorded, rfl⟩

theorem Progress.eq_prompted_of_promptedBy {one other : Progress}
    (related : (promptedBy attempts).Progresses one other) :
    Recorded attempts one.engine.world ∧ other = one.prompted attempts := by
  cases related with
  | running related =>
    obtain ⟨recorded, rfl⟩ := Engine.eq_prompted_of_promptedBy related
    exact ⟨recorded, rfl⟩
  | ended results =>
    cases results with
    | ok _ after =>
      obtain ⟨recorded, rfl⟩ := Engine.eq_prompted_of_promptedBy after
      exact ⟨recorded, rfl⟩
    | error same after =>
      obtain ⟨recorded, rfl⟩ := Engine.eq_prompted_of_promptedBy after
      cases same
      exact ⟨recorded, rfl⟩
    | parted ends => exact ends.elim
  | parted ends => exact ends.elim

theorem start_prompted (p : Program) (input : List UInt8) (output : Sink) (memory : Nat → Bool) :
    start p input output true memory = (start p input output false memory).map (·.prompted []) := by
  rw [start_eq, start_eq]
  cases Labels.ofProgram p <;> rfl

theorem Progress.prompted_world (progress : Progress) (attempts : List Attempt) :
    (progress.prompted attempts).engine.world = progress.engine.world.prompted attempts := by
  cases progress with
  | running engine => rfl
  | ended outcome => cases outcome <;> rfl

theorem Progress.report_prompted (progress : Progress) (attempts : List Attempt) :
    (progress.prompted attempts).report.result? = progress.report.result? ∧
      (progress.prompted attempts).report.input = progress.report.input := by
  cases progress with
  | running engine => exact ⟨rfl, rfl⟩
  | ended outcome => cases outcome <;> exact ⟨rfl, rfl⟩

/-- A run into an output that never fails is the same with prompts but for the prompts. -/
theorem runFor_prompted {p : Program} {input : List UInt8} {output : Sink} {memory : Nat → Bool}
    {first : Engine} (started : start p input output false memory = .ok first)
    (unlimited : output.limit = none)
    (flushes : ∀ size, output.failFlush size = false) (steps : Nat) :
    Recorded (first.attempts steps) (first.runFor steps).engine.world ∧
      (first.prompted []).runFor steps = (first.runFor steps).prompted (first.attempts steps) := by
  have nothing : Recorded [] first.world := by
    constructor
    · exact .nil
    · intro attempt member
      cases member
  have related : (promptedBy []).Engines first (first.prompted []) := by
    rw [eq_initial_of_start started] at nothing ⊢
    exact ⟨_, ⟨rfl, ⟨unlimited, flushes⟩, nothing, rfl⟩, rfl⟩
  exact Progress.eq_prompted_of_promptedBy (runFor_promptedBy related steps)

end Engine

/-- Prompts are not seen by the program. Into an output that never fails, a run with prompts has the
same result as the run without and leaves the same input unread. It goes through the same states,
and its output is the output without prompts with the prompt of each attempt to read inserted at the
place that the output had reached when the attempt began; the attempts come in their order, and an
attempt that finds no line is one of them. -/
theorem prompts_unseen (source : String) (input : List UInt8) (output : Sink)
    (memory : Nat → Bool) (unlimited : output.limit = none)
    (flushes : ∀ size, output.failFlush size = false) :
    (∀ steps, (runText source input output true memory steps).result? =
        (runText source input output false memory steps).result? ∧
      (runText source input output true memory steps).input =
        (runText source input output false memory steps).input) ∧
    ((¬ ∃ p first, Program.ofSource source = .ok p ∧
        Engine.start p input output false memory = .ok first) →
      ∀ steps, runText source input output true memory steps =
        runText source input output false memory steps) ∧
    ∀ p first, Program.ofSource source = .ok p →
      Engine.start p input output false memory = .ok first →
      Engine.start p input output true memory = .ok (first.prompted []) ∧
      ∀ steps,
        (first.prompted []).runFor steps = (first.runFor steps).prompted (first.attempts steps) ∧
        Recorded (first.attempts steps) (first.runFor steps).engine.world ∧
        ((first.runFor steps).Exhausted ↔
          ∃ attempt ∈ first.attempts steps, attempt.world.input = []) := by
  have begins : ∀ p, Engine.start p input output true memory =
      (Engine.start p input output false memory).map (·.prompted []) :=
    fun p => Engine.start_prompted p input output memory
  have refused : (¬ ∃ p first, Program.ofSource source = .ok p ∧
      Engine.start p input output false memory = .ok first) →
      ∀ steps, runText source input output true memory steps =
        runText source input output false memory steps := by
    intro none steps
    simp only [runText]
    cases parsed : Program.ofSource source with
    | error e => rfl
    | ok p =>
      simp only [begins]
      cases started : Engine.start p input output false memory with
      | error e => rfl
      | ok first => exact absurd ⟨p, first, parsed, started⟩ none
  have runs : ∀ p first, Engine.start p input output false memory = .ok first →
      Engine.start p input output true memory = .ok (first.prompted []) := by
    intro p first started
    rw [begins, started]
    rfl
  refine ⟨?_, refused, ?_⟩
  · intro steps
    by_cases starts : ∃ p first, Program.ofSource source = .ok p ∧
        Engine.start p input output false memory = .ok first
    · obtain ⟨p, first, parsed, started⟩ := starts
      have same := (Engine.runFor_prompted started unlimited flushes steps).2
      rw [runText_of_started parsed started, runText_of_started parsed (runs p first started), same]
      exact (first.runFor steps).report_prompted _
    · rw [refused starts steps]
      exact ⟨rfl, rfl⟩
  · intro p first _ started
    refine ⟨runs p first started, ?_⟩
    intro steps
    have unfailing : first.world.Unfailing := by
      rw [Engine.eq_initial_of_start started]
      exact ⟨unlimited, flushes⟩
    obtain ⟨recorded, same⟩ := Engine.runFor_prompted started unlimited flushes steps
    exact ⟨same, recorded, (Engine.runFor_draws unfailing steps).2⟩

/-- The targets are in a branch that a jump leads to again and again, until there are no more lines:
the last prompt stands at the end of the output. -/
theorem prompts_unseen_in_branch :
    ∃ p first other, Program.ofSource
        "begin n: integer; a: if 1 then read n; write n; goto a end" = .ok p ∧
      Engine.start p [53, 10, 55, 10] .unlimited false (fun _ => true) = .ok first ∧
      Engine.start p [53, 10, 55, 10] .unlimited true (fun _ => true) = .ok other ∧
      (first.runFor 13).Exhausted ∧
      (first.runFor 13).engine.world.output.written = "5\n7\n".toUTF8 ∧
      (other.runFor 13).engine.world.output.written =
        "Enter value for n: 5\nEnter value for n: 7\nEnter value for n: ".toUTF8 := by
  let p : Program := ⟨[.declare ["n"] none .integer 1, .label "a" 1,
    .ifThen (.integer 1 1) (.read [⟨"n", none, 1⟩] 1) 1,
    .write [.expr (.var "n" 1)] 1, .goto "a" 1], 1⟩
  have parsed : Program.ofSource
      "begin n: integer; a: if 1 then read n; write n; goto a end" = .ok p := by
    with_unfolding_all rfl
  let first := Engine.initial p [53, 10, 55, 10] .unlimited false (fun _ => true)
  have started : Engine.start p [53, 10, 55, 10] .unlimited false (fun _ => true) = .ok first := rfl
  obtain ⟨_, _, runs⟩ := prompts_unseen "begin n: integer; a: if 1 then read n; write n; goto a end"
    [53, 10, 55, 10] .unlimited (fun _ => true) rfl fun _ => rfl
  obtain ⟨starts, reads⟩ := runs p first parsed started
  obtain ⟨same, _, lacks⟩ := reads 13
  have written : (first.runFor 13).engine.world.output.written = "5\n7\n".toUTF8 := by
    decide +kernel
  have inserted : insertPrompts (first.attempts 13) "5\n7\n".toUTF8 =
      "Enter value for n: 5\nEnter value for n: 7\nEnter value for n: ".toUTF8 := by
    decide +kernel
  have lacking : ∃ attempt ∈ first.attempts 13, attempt.world.input = [] := by decide +kernel
  clear_value first
  refine ⟨p, first, _, parsed, started, starts, lacks.2 lacking, written, ?_⟩
  rw [same, Engine.Progress.prompted_world, World.prompted_written, written, inserted]

end GotoLang
