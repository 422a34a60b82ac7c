import GotoLang.Proofs.EvaluationRun

set_option autoImplicit false

namespace GotoLang

/-- Evaluation does not change the settings of a world. -/
theorem Evaluates.sameSettings {task : Task} {world : World} {last : Conclusion}
    (evaluates : Evaluates task world last) : world.SameSettings last.world := by
  induction evaluates with
  | @act _ effect world _ =>
    have within := effect.run_within World.SameSettings.allows world
    cases ran : effect.run world with
    | ok _ after | error e after =>
      rw [ran] at within
      exact within
  | label | empty | untested | undecided | skipped | nil => exact refl_of _ _
  | block _ ih | loop _ ih | chosen _ _ _ ih | branch _ _ _ ih | other _ _ _ ih | stop _ ih
  | «break» _ ih => exact ih
  | cons _ _ ihFirst ihOthers => exact trans_of _ ihFirst ihOthers
  | «repeat» _ _ ihOnce ihMore => exact trans_of _ ihOnce ihMore

/-- What a frame that is entered is there for. -/
def Frame.task (frame : Frame) : Task :=
  if frame.isLoop then .again frame.statements else .sequence frame.statements

/-- The statements from the cursor on come to an end, and then the loop, or what is outside. -/
def Frame.Completes (frame : Frame) (outside : World → Conclusion → Prop) (world : World)
    (last : Conclusion) : Prop :=
  ∃ first, Evaluates (.sequence (frame.statements.drop frame.cursor)) world first ∧
    first.Then (if frame.isLoop then Evaluates (.again frame.statements) else outside) last

/-- The program comes to an end behind the statements that are under way. -/
def Position.CompletesBehind : Position → World → Conclusion → Prop
  | [] => fun world last => last = ⟨.ok (), world⟩
  | frame :: outer => frame.next.Completes (CompletesBehind outer)

/-- The program comes to an end from a position on. The statement of an outer frame is under way. -/
def Position.Completes : Position → World → Conclusion → Prop
  | [] => fun world last => last = ⟨.ok (), world⟩
  | frame :: outer => frame.Completes (CompletesBehind outer)

def Position.HasLoop (position : Position) : Prop :=
  ∃ frame ∈ position, frame.isLoop = true

namespace Position

variable {frame : Frame} {outer : Position}

theorem hasLoop_cons : HasLoop (frame :: outer) ↔ frame.isLoop = true ∨ HasLoop outer :=
  List.exists_mem_cons_iff _ frame outer

theorem hasLoop_advance : HasLoop (Engine.advance outer) ↔ HasLoop outer := by
  cases outer with
  | nil => exact Iff.rfl
  | cons frame outer =>
    rw [Engine.advance, hasLoop_cons, hasLoop_cons]
    exact Iff.rfl

end Position

theorem Position.completes_advance (outer : Position) :
    Position.Completes (Engine.advance outer) = outer.CompletesBehind := by
  cases outer <;> rfl

namespace Frame

variable {frame : Frame} {outside : World → Conclusion → Prop} {world : World} {last : Conclusion}

theorem completes_iff_current {s : Statement} (here : frame.current? = some s) :
    frame.Completes outside world last ↔
      ∃ first, Evaluates (.single s) world first ∧
        first.Then (frame.next.Completes outside) last := by
  rw [Completes, frame.drop_cursor here]
  simp only [Evaluates.sequence_cons_iff]
  constructor
  · rintro ⟨whole, ⟨first, evaluates, others⟩, behind⟩
    exact ⟨first, evaluates, Conclusion.Then.assoc.1 ⟨whole, others, behind⟩⟩
  · rintro ⟨first, evaluates, behind⟩
    obtain ⟨whole, others, behind⟩ := Conclusion.Then.assoc.2 behind
    exact ⟨whole, ⟨first, evaluates, others⟩, behind⟩

theorem completes_iff_atEnd (atEnd : frame.current? = none) :
    frame.Completes outside world last ↔
      (if frame.isLoop then Evaluates (.again frame.statements) else outside) world last := by
  rw [Completes, List.drop_eq_nil_of_le (List.getElem?_eq_none_iff.1 atEnd)]
  simp only [Evaluates.sequence_nil_iff, exists_eq_left]
  exact Iff.rfl

/-- A frame at its start is there for its whole task. A loop does not come to what is outside. -/
theorem Completes.task (completes : frame.Completes outside world last)
    (start : frame.cursor = 0) :
    ∃ first, Evaluates frame.task world first ∧ first.Then outside last := by
  obtain ⟨first, evaluates, rest⟩ := completes
  rw [start, List.drop_zero] at evaluates
  cases isLoop : frame.isLoop with
  | false =>
    simp only [isLoop, Bool.false_eq_true, if_false] at rest
    simp only [Frame.task, isLoop, Bool.false_eq_true, if_false]
    exact ⟨first, evaluates, rest⟩
  | true =>
    simp only [isLoop, if_true] at rest
    have whole := Evaluates.again_iff.2 ⟨first, evaluates, rest⟩
    obtain ⟨e, failed⟩ := Evaluates.error_of_again whole
    simp only [Frame.task, isLoop, if_true]
    refine ⟨last, whole, ?_⟩
    rw [Conclusion.Then, failed]

end Frame

/-- What the evaluation of a statement is, seen from its execution by the engine. -/
def Statement.Yields (s : Statement) (world : World) :
    EStateM.Result RuntimeError World Flow → Prop
  | .ok .next after => Evaluates (.single s) world ⟨.ok (), after⟩
  | .ok (.enter inner) after =>
    ∀ last, Evaluates inner.task after last → Evaluates (.single s) world last
  | .ok (.jump _ _) _ => ¬ s.Everywhere fun t => t.isGoto = false
  | .error e after => Evaluates (.single s) world ⟨.error e, after⟩

namespace Statement.Yields

variable {s branch : Statement} {world : World} {result : EStateM.Result RuntimeError World Flow}

/-- What holds of a branch holds of the statement that chooses it. -/
theorem of_branch (yields : branch.Yields world result)
    (evaluates : ∀ last, Evaluates (.single branch) world last → Evaluates (.single s) world last)
    (inside : (s.Everywhere fun t => t.isGoto = false) →
      branch.Everywhere fun t => t.isGoto = false) : s.Yields world result := by
  cases result with
  | ok flow after =>
    cases flow with
    | next => exact evaluates _ yields
    | enter inner => exact fun last evaluated => evaluates last (yields last evaluated)
    | jump name line => exact fun straight => yields (inside straight)
  | error e after => exact evaluates _ yields

end Statement.Yields

theorem Statement.Execution.yields {s : Statement} {world : World} {operations : List Operation}
    {result : EStateM.Result RuntimeError World Flow}
    (execution : s.Execution world operations result) : s.Yields world result := by
  induction execution with
  | block body line => exact fun _ evaluates => .block evaluates
  | loop body line => exact fun _ evaluates => .loop evaluates
  | goto name line => exact fun straight => nomatch straight.here
  | label name line => exact .label name line world
  | empty line => exact .empty line world
  | done acts ran | failed acts ran =>
    have evaluates := Evaluates.act world acts
    rwa [ran] at evaluates
  | untested tested => exact .untested tested
  | skipped tested fails => exact .skipped tested fails
  | undecided tested => exact .undecided tested
  | chosen tested holds _ ih =>
    exact ih.of_branch (fun _ => .chosen tested holds) fun straight =>
      (Everywhere.ifThen.1 straight).2
  | branch tested holds _ ih =>
    exact ih.of_branch (fun _ => .branch tested holds) fun straight =>
      (Everywhere.ifThenElse.1 straight).2.1
  | other tested fails _ ih =>
    exact ih.of_branch (fun _ => .other tested fails) fun straight =>
      (Everywhere.ifThenElse.1 straight).2.2

namespace Engine

/-- An engine that runs a program without jumps, into an output that can be flushed. -/
structure Straight (p : Program) (engine : Engine) : Prop where
  onPath : engine.OnPath p
  free : engine.jump? = none
  flushes : ∀ size, engine.world.output.failFlush size = false

variable {p : Program} {engine : Engine} {outcome : Outcome Bool} {last : Conclusion}

/-- No `goto` is executed. -/
theorem Straight.not_jump (straight : engine.Straight p)
    (noGoto : ∀ s ∈ p.body, s.Everywhere fun t => t.isGoto = false) {frame : Frame}
    {outer : Position} {s : Statement} {name : String} {line : Nat} {after : World}
    (stands : engine.position = frame :: outer) (here : frame.current? = some s) :
    s.execute engine.world ≠ .ok (.jump name line) after := by
  intro executed
  have yields := (s.execution engine.world).yields
  rw [executed] at yields
  have path := straight.onPath.isPath stands
  exact yields (path.everywhere noGoto rfl s (Frame.mem_of_current? here))

theorem Straight.move (straight : engine.Straight p)
    (noGoto : ∀ s ∈ p.body, s.Everywhere fun t => t.isGoto = false) {more : Bool} {next : Engine}
    (move : engine.Move (.ok more next)) : next.Straight p := by
  have onPath : next.OnPath p := straight.onPath.move move
  cases move with
  | land jump marker pending found => cases straight.free.symm.trans pending
  | rest => exact straight
  | restart | close => exact ⟨onPath, straight.free, straight.flushes⟩
  | execute frame outer s flow world free stands here executed =>
    have settings := s.execute_within World.SameSettings.allows engine.world
    rw [executed] at settings
    have flushes := settings.flushes straight.flushes
    cases flow with
    | next | enter inner => exact ⟨onPath, free, flushes⟩
    | jump name line => exact absurd executed (straight.not_jump noGoto stands here)

/-- What a step leaves is the rest of the same evaluation. -/
theorem Straight.completes_of_next (straight : engine.Straight p)
    (noGoto : ∀ s ∈ p.body, s.Everywhere fun t => t.isGoto = false) {next : Engine}
    (move : engine.Move (.ok true next)) (completes : next.position.Completes next.world last) :
    engine.position.Completes engine.world last := by
  cases move with
  | land jump marker pending found => cases straight.free.symm.trans pending
  | restart frame outer free stands atEnd isLoop =>
    rw [stands]
    refine (Frame.completes_iff_atEnd atEnd).2 ?_
    simp only [isLoop, if_true]
    obtain ⟨first, once, more⟩ := completes
    simp only [Frame.restart, isLoop, if_true, List.drop_zero] at once more
    exact Evaluates.again_iff.2 ⟨first, once, more⟩
  | close frame outer free stands atEnd isBlock =>
    rw [stands]
    refine (Frame.completes_iff_atEnd atEnd).2 ?_
    simp only [isBlock, Bool.false_eq_true, if_false]
    rwa [Position.completes_advance] at completes
  | execute frame outer s flow world free stands here executed =>
    have yields := (s.execution engine.world).yields
    rw [executed] at yields
    rw [stands]
    cases flow with
    | next =>
      simp only [follow, stands, advance] at completes
      exact (Frame.completes_iff_current here).2 ⟨_, yields, completes⟩
    | enter inner =>
      simp only [follow, stands] at completes
      have start := ((s.execution engine.world).opens executed).2
      obtain ⟨first, evaluates, behind⟩ := Frame.Completes.task completes start
      exact (Frame.completes_iff_current here).2 ⟨first, yields first evaluates, behind⟩
    | jump name line => exact absurd executed (straight.not_jump noGoto stands here)

theorem completes_of_error {e : RuntimeError} (free : engine.jump? = none) {after : Engine}
    (move : engine.Move (.error e after)) :
    engine.position.Completes engine.world ⟨.error e, after.world⟩ := by
  cases move with
  | lose jump pending missing => cases free.symm.trans pending
  | fail frame outer s e world free stands here failed =>
    have yields := (s.execution engine.world).yields
    rw [failed] at yields
    rw [stands]
    exact (Frame.completes_iff_current here).2 ⟨_, yields, rfl⟩

/-- A run that ends has evaluated what was left at its start. The induction is on its steps. -/
theorem Straight.completes (straight : engine.Straight p)
    (noGoto : ∀ s ∈ p.body, s.Everywhere fun t => t.isGoto = false) {n : Nat}
    (ended : (engine.runFor n).stage = .ended last) :
    engine.position.Completes engine.world last := by
  induction n generalizing engine with
  | zero => cases ended
  | succ n ih =>
    have move := engine.step_move
    rw [runFor] at ended
    generalize engine.step = outcome at move ended
    cases outcome with
    | ok more next =>
      cases more with
      | true => exact straight.completes_of_next noGoto move (ih (straight.move noGoto move) ended)
      | false =>
        cases move with
        | rest free nowhere =>
          simp only [finish_of_flushes straight.flushes] at ended
          cases ended
          rw [nowhere]
          rfl
    | error e after =>
      cases ended
      exact completes_of_error straight.free move

/-- Without jumps a loop is left by an error only. -/
theorem Straight.hasLoop_next (straight : engine.Straight p) (inside : engine.position.HasLoop)
    {more : Bool} {next : Engine} (move : engine.Move (.ok more next)) :
    more = true ∧ next.position.HasLoop := by
  cases move with
  | land jump marker pending found => cases straight.free.symm.trans pending
  | rest free nowhere =>
    rw [nowhere] at inside
    obtain ⟨frame, member, _⟩ := inside
    cases member
  | restart frame outer free stands atEnd isLoop =>
    exact ⟨rfl, frame.restart, List.mem_cons_self, isLoop⟩
  | close frame outer free stands atEnd isBlock =>
    rw [stands, Position.hasLoop_cons, isBlock] at inside
    exact ⟨rfl, Position.hasLoop_advance.2 (inside.resolve_left Bool.false_ne_true)⟩
  | execute frame outer s flow world free stands here executed =>
    refine ⟨rfl, ?_⟩
    cases flow with
    | next => exact Position.hasLoop_advance.2 inside
    | enter inner => exact Position.hasLoop_cons.2 (Or.inr inside)
    | jump name line => exact inside

theorem Straight.not_ended (straight : engine.Straight p)
    (noGoto : ∀ s ∈ p.body, s.Everywhere fun t => t.isGoto = false)
    (inside : engine.position.HasLoop) (n : Nat) (world : World) :
    (engine.runFor n).stage ≠ .ended ⟨.ok (), world⟩ := by
  induction n generalizing engine with
  | zero =>
    intro ended
    cases ended
  | succ n ih =>
    have move := engine.step_move
    rw [runFor]
    generalize engine.step = outcome at move
    cases outcome with
    | ok more next =>
      obtain ⟨rfl, inside⟩ := straight.hasLoop_next inside move
      exact ih (straight.move noGoto move) inside
    | error e after =>
      intro ended
      cases ended

theorem Straight.running (straight : engine.Straight p)
    (noGoto : ∀ s ∈ p.body, s.Everywhere fun t => t.isGoto = false) {n : Nat} {inside : Engine}
    (running : engine.runFor n = .running inside) : inside.Straight p := by
  induction n generalizing engine with
  | zero =>
    cases running
    exact straight
  | succ n ih =>
    have move := engine.step_move
    rw [runFor] at running
    generalize engine.step = outcome at move running
    cases outcome with
    | ok more next =>
      cases more with
      | true => exact ih (straight.move noGoto move) running
      | false => cases running
    | error e after => cases running

/-- How a run goes on behind a number of steps. -/
theorem runFor_add (n k : Nat) (engine : Engine) :
    engine.runFor (n + k) =
      match engine.runFor n with
      | .running inside => inside.runFor k
      | .ended outcome => .ended outcome := by
  induction n generalizing engine with
  | zero => rw [Nat.zero_add, runFor]
  | succ n ih =>
    rw [Nat.add_right_comm, runFor, runFor]
    cases engine.step with
    | ok more next =>
      cases more with
      | true => exact ih next
      | false => rfl
    | error e after => rfl

/-- Whatever number of steps a run is given, it ends in only one way. -/
theorem stage_runFor_add {n : Nat} (ended : (engine.runFor n).stage = .ended last) (k : Nat) :
    (engine.runFor (n + k)).stage = .ended last := by
  rw [runFor_add]
  cases reached : engine.runFor n with
  | running inside =>
    rw [reached] at ended
    cases ended
  | ended outcome => rwa [reached] at ended

end Engine

/-- The engine runs a program without `goto` as the program is evaluated: it ends if and only if the
evaluation does, with the same result, variables, unread input and output. Without loops it always
ends, and a run that has entered a loop never ends well. -/
theorem run_eq_evaluation (p : Program) (input : List UInt8) (output : Sink) (prompts : Bool)
    (memory : Nat → Bool)
    (noGoto : ∀ s ∈ p.all, s.isGoto = false) (distinct : p.labelNames.Nodup)
    (flushes : ∀ size, output.failFlush size = false) :
    ∃ engine, Engine.start p input output prompts memory = .ok engine ∧
      (∀ last, engine.EndsWith last ↔
        Evaluates (.sequence p.body) ⟨.empty, input, output, prompts, memory⟩ last) ∧
      ((∀ s ∈ p.all, s.isLoop = false) → ∃ last, engine.EndsWith last) ∧
      ∀ n inside, engine.runFor n = .running inside → inside.position.HasLoop →
        ∀ world, ¬ engine.EndsWith ⟨.ok (), world⟩ := by
  have accepted : Labels.ofProgram p = .ok ⟨p.markers⟩ :=
    Labels.ofProgram_eq_ok_iff.2 ⟨distinct, rfl⟩
  have everywhere := Statement.Everywhere.sequence.1 noGoto
  have straight : (Engine.initial p input output prompts memory).Straight p :=
    ⟨Engine.initial_onPath p input output prompts memory, rfl, flushes⟩
  have agrees (last : Conclusion) : (Engine.initial p input output prompts memory).EndsWith last ↔
      Evaluates (.sequence p.body) ⟨.empty, input, output, prompts, memory⟩ last := by
    constructor
    · rintro ⟨n, ended⟩
      obtain ⟨first, evaluates, behind⟩ := straight.completes everywhere ended
      obtain rfl := Conclusion.Then.nothing.1 behind
      exact evaluates
    · intro evaluates
      have atEnd : (⟨p.body, 0 + p.body.length, false⟩ : Frame).current? = none := by
        simp only [Frame.current?, Nat.zero_add, List.getElem?_eq_none_iff, Nat.le_refl]
      have settles := Engine.follows_of_evaluates ⟨p.markers⟩ evaluates p.root [] p.line rfl
      have flushed := evaluates.sameSettings.flushes flushes
      exact (settles.close atEnd rfl).endsWith flushed
  refine ⟨Engine.initial p input output prompts memory, ?_, agrees, fun noLoop => ?_, ?_⟩
  · rw [Engine.start_eq, accepted]
    rfl
  · have both := Statement.Everywhere.sequence.1 fun s member =>
      And.intro (noGoto s member) (noLoop s member)
    obtain ⟨last, evaluates⟩ := Evaluates.exists_sequence
      (fun s member => s.exists_evaluates (both s member)) ⟨.empty, input, output, prompts, memory⟩
    exact ⟨last, (agrees last).2 evaluates⟩
  · rintro n inside running hasLoop world ⟨m, ended⟩
    have later := Engine.stage_runFor_add ended n
    rw [Nat.add_comm, Engine.runFor_add, running] at later
    exact (straight.running everywhere running).not_ended everywhere hasLoop m world later

theorem run_eq_evaluation_of_failing_loop :
    ∃ p engine last, Program.ofSource
        "begin n: integer; loop n := n + 1; top: if n = 2 then begin write n / 0 end end end" =
          .ok p ∧
      (∀ s ∈ p.all, s.isGoto = false) ∧ p.labelNames.Nodup ∧
      Engine.start p [] .unlimited false (fun _ => true) = .ok engine ∧ engine.EndsWith last ∧
      Evaluates (.sequence p.body) ⟨.empty, [], .unlimited, false, fun _ => true⟩ last ∧
      last.result = .error ⟨.divisionByZero, 1⟩ := by
  let p : Program := ⟨[.declare ["n"] none .integer 1,
    .loop [.assign ⟨"n", none, 1⟩ (.binary .add (.var "n" 1) (.integer 1 1) 1), .label "top" 1,
      .ifThen (.binary .equal (.var "n" 1) (.integer 2 1) 1)
        (.block [.write [.expr (.binary .div (.var "n" 1) (.integer 0 1) 1)] 1] 1) 1] 1], 1⟩
  have parsed : Program.ofSource
      "begin n: integer; loop n := n + 1; top: if n = 2 then begin write n / 0 end end end" =
        .ok p := by
    with_unfolding_all rfl
  have noGoto : ∀ s ∈ p.all, s.isGoto = false := by
    simp [p, Program.all, allOf, Statement.all, Statement.isGoto]
  have distinct : p.labelNames.Nodup := by decide
  obtain ⟨engine, started, agrees, _⟩ :=
    run_eq_evaluation p [] .unlimited false (fun _ => true) noGoto distinct fun _ => rfl
  cases Engine.eq_initial_of_start started
  have fails : ((Engine.initial p [] .unlimited false (fun _ => true)).runFor 20).stage.result? =
      some (.error ⟨.divisionByZero, 1⟩) := by
    decide +kernel
  obtain ⟨last, ended, result⟩ := Stage.result?_eq_some_iff.1 fails
  exact ⟨p, _, last, parsed, noGoto, distinct, started, ⟨20, ended⟩, (agrees last).1 ⟨20, ended⟩,
    result⟩

end GotoLang
