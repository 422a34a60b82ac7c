import GotoLang.Proofs.EngineBehaviour
import GotoLang.Proofs.FlatPosition
import GotoLang.Proofs.LabelTable

set_option autoImplicit false

namespace GotoLang

mutual

/-- A bound on the steps through a statement that the machine does not take. -/
def Statement.weight : Statement → Nat
  | .block body _ | .loop body _ => weightOf body + 2
  | _ => 1

def weightOf : List Statement → Nat
  | [] => 0
  | s :: rest => s.weight + weightOf rest

end

def Frame.weight (frame : Frame) : Nat :=
  weightOf (frame.statements.drop frame.cursor) + 1

/-- A bound on the steps to the end of a program behind the statements that are under way. -/
def Position.weightBehind : Position → Nat
  | [] => 0
  | frame :: outer => frame.next.weight + weightBehind outer

/-- A bound on the steps to the end of a program. The statement of an outer frame is under way. -/
def Position.weight : Position → Nat
  | [] => 0
  | frame :: outer => frame.weight + weightBehind outer

/-- What the statement that was executed leaves to be done before the next one. -/
def Flow.weight : Flow → Nat
  | .enter frame => frame.weight
  | .next | .jump _ _ => 0

/-- A bound on the steps that the machine does not take before it takes one. -/
def Engine.weight (engine : Engine) : Nat :=
  match engine.jump? with
  | some _ => 0
  | none => engine.position.weight

theorem Frame.weight_next {frame : Frame} {s : Statement} (stands : frame.current? = some s) :
    frame.weight = s.weight + frame.next.weight := by
  rw [weight, frame.drop_cursor stands, weightOf, Nat.add_assoc]
  rfl

theorem Position.weight_advance_lt (frame : Frame) (outer : Position) :
    Position.weight (Engine.advance outer) < Position.weight (frame :: outer) := by
  cases outer with
  | nil =>
    simp only [Engine.advance, weight, Frame.weight]
    omega
  | cons around outer =>
    simp only [Engine.advance, weight, weightBehind, Frame.weight]
    omega

/-- A statement that is executed without a step of the machine lightens the position. -/
theorem Engine.weight_follow (engine : Engine) {frame : Frame} {outer : Position} {s : Statement}
    {flow : Flow} (free : engine.jump? = none) (stands : engine.position = frame :: outer)
    (here : frame.current? = some s) (lighter : flow.weight < s.weight) :
    (engine.follow flow).weight < engine.weight := by
  have split := frame.weight_next here
  cases flow with
  | next =>
    simp only [Flow.weight] at lighter
    simp only [follow, weight, free, stands, advance, Position.weight]
    omega
  | enter inner =>
    simp only [Flow.weight] at lighter
    simp only [follow, weight, free, stands, Position.weight, Position.weightBehind]
    omega
  | jump name line =>
    simp only [follow, weight, free, stands, Position.weight, Frame.weight]
    omega

/-- The machine is at a place from which it goes on like the engine. -/
def Flow.Matched (code : List Instruction) (here : Position) (place : Nat) : Flow → Prop
  | .next => Arrives code (Engine.advance here) place
  | .enter frame => Arrives code (frame :: here) place
  | .jump name line => code[place]? = some (.goto name line)

/-- From a place the machine performs the operations of a statement and then goes on, or ends, like
the engine. It takes a step, or the engine comes closer to one. -/
def Machine.Follows (code : List Instruction) (here : Position) (world : World) (place weight : Nat)
    (operations : List Operation) : EStateM.Result RuntimeError World Flow → Prop
  | .ok flow after => ∃ n next,
    (automaton code).Steps world n ⟨place, world⟩ operations ⟨next, after⟩ ∧
      flow.Matched code here next ∧ (n = 0 → flow.weight < weight)
  | .error e after => (automaton code).Ends world ⟨place, world⟩ operations ⟨.error e, after⟩

namespace Machine

variable {code : List Instruction} {here : Position} {place : Nat} {world : World}

theorem Follows.after_test {condition : Expr} {next weight : Nat} {operations : List Operation}
    {result : EStateM.Result RuntimeError World Flow}
    (test : (automaton code).Steps world 1 ⟨place, world⟩ [.test condition] ⟨next, world⟩)
    (follows : Follows code here world next weight operations result) (other : Nat) :
    Follows code here world place other (.test condition :: operations) result := by
  cases result with
  | ok flow after =>
    obtain ⟨n, last, steps, matched, _⟩ := follows
    exact ⟨1 + n, last, test.trans steps, matched, by omega⟩
  | error e after => exact .of_steps test follows

/-- The machine performs what executing a statement performs. -/
theorem follows_execution {s : Statement} {operations : List Operation}
    {result : EStateM.Result RuntimeError World Flow}
    (execution : s.Execution world operations result) (placed : Placed code here s place) :
    Follows code here world place s.weight operations result := by
  induction execution generalizing place with
  | block body line =>
    refine ⟨0, place, .refl _, placed.block.arrives, fun _ => ?_⟩
    simp only [Flow.weight, Statement.weight, Frame.weight, List.drop_zero]
    omega
  | loop body line =>
    refine ⟨0, place, .refl _, placed.loop.arrives, fun _ => ?_⟩
    simp only [Flow.weight, Statement.weight, Frame.weight, List.drop_zero]
    omega
  | goto name line => exact ⟨0, place, .refl _, placed.begins.head, fun _ => Nat.one_pos⟩
  | label name line =>
    exact ⟨1, place + 1, steps_label placed.begins.head, placed.after, fun _ => Nat.one_pos⟩
  | empty line => exact ⟨0, place, .refl _, placed.after, fun _ => Nat.one_pos⟩
  | done acts ran =>
    obtain ⟨stands, after⟩ := placed.effect acts
    exact ⟨1, place + 1, steps_act stands ran, after, nofun⟩
  | failed acts ran => exact ends_act (placed.effect acts).1 ran
  | untested tested =>
    obtain ⟨otherwise, stands, _⟩ := placed.ifThen
    exact ends_test stands tested
  | skipped tested fails =>
    obtain ⟨otherwise, stands, _, behind⟩ := placed.ifThen
    exact ⟨1, otherwise, steps_test_fails stands tested fails, behind, nofun⟩
  | chosen tested holds inner ih =>
    obtain ⟨otherwise, stands, chosen, _⟩ := placed.ifThen
    exact (ih chosen).after_test (steps_test_holds stands tested holds) _
  | undecided tested => exact ends_test placed.ifThenElse.1 tested
  | branch tested holds inner ih =>
    obtain ⟨stands, chosen, _⟩ := placed.ifThenElse
    exact (ih chosen).after_test (steps_test_holds stands tested holds) _
  | other tested fails inner ih =>
    obtain ⟨stands, _, rejected⟩ := placed.ifThenElse
    exact (ih rejected).after_test (steps_test_fails stands tested fails) _

end Machine

/-- The machine is in the world of the engine, and at a place where the engine stands or at the
`goto` that the engine is about to carry out. -/
structure Engine.Matches (p : Program) (engine : Engine) (machine : Machine) : Prop where
  labels : engine.labels = ⟨p.markers⟩
  world : machine.world = engine.world
  flushes : ∀ size, engine.world.output.failFlush size = false
  stands : match engine.jump? with
    | none => Arrives p.flat engine.position machine.place
    | some jump => p.flat[machine.place]? = some (.goto jump.label jump.line)

/-- The machine follows a step of the engine, or ends with it. -/
def Machine.Answers (p : Program) (engine : Engine) (machine : Machine) : Outcome Bool → Prop
  | .ok true next => ∃ n machine',
    (automaton p.flat).Steps engine.world n machine engine.operations machine' ∧
      next.Matches p machine' ∧ (n = 0 → next.weight < engine.weight)
  | .ok false last =>
    (automaton p.flat).Ends engine.world machine engine.operations last.finish.conclusion
  | .error e last =>
    (automaton p.flat).Ends engine.world machine engine.operations ⟨.error e, last.world⟩

namespace Engine

variable {p : Program} {engine : Engine} {machine : Machine}

theorem initial_matches (p : Program) (input : List UInt8) (output : Sink) (prompts : Bool)
    (memory : Nat → Bool)
    (flushes : ∀ size, output.failFlush size = false) :
    (initial p input output prompts memory).Matches p
      (Machine.initial input output prompts memory) :=
  ⟨rfl, rfl, flushes, p.standing.arrives⟩

/-- Where an engine without a pending jump stands, the machine gets by jumps alone. -/
theorem Matches.settle (agree : engine.Matches p machine) (free : engine.jump? = none) :
    ∃ n place, (Machine.automaton p.flat).Steps engine.world n machine [] ⟨place, engine.world⟩ ∧
      Standing p.flat engine.position place := by
  obtain ⟨place, world⟩ := machine
  obtain ⟨_, rfl, _, stands⟩ := agree
  simp only [free] at stands
  obtain ⟨last, slides, standing⟩ := stands
  obtain ⟨n, steps⟩ := slides.steps engine.world
  exact ⟨n, last, steps, standing⟩

/-- The machine is as far as the engine after a statement. -/
theorem matches_follow (engine : Engine) {frame : Frame} {outer : Position} {flow : Flow}
    {place : Nat} (labels : engine.labels = ⟨p.markers⟩)
    (flushes : ∀ size, engine.world.output.failFlush size = false) (free : engine.jump? = none)
    (stands : engine.position = frame :: outer)
    (matched : flow.Matched p.flat (frame :: outer) place) :
    (engine.follow flow).Matches p ⟨place, engine.world⟩ := by
  cases flow with
  | next =>
    refine ⟨labels, rfl, flushes, ?_⟩
    simp only [follow, free, stands]
    exact matched
  | enter inner =>
    refine ⟨labels, rfl, flushes, ?_⟩
    simp only [follow, free, stands]
    exact matched
  | jump name line => exact ⟨labels, rfl, flushes, matched⟩

theorem Matches.move (plain : ∀ s ∈ p.body, s.Everywhere Statement.PlainBranches)
    (agree : engine.Matches p machine) {outcome : Outcome Bool} (move : engine.Move outcome) :
    machine.Answers p engine outcome := by
  cases move with
  | land jump marker pending found =>
    obtain ⟨place, world⟩ := machine
    obtain ⟨labels, rfl, flushes, stands⟩ := agree
    rw [labels] at found
    obtain ⟨next, leads, standing⟩ := address?_of_find? plain found
    simp only [pending] at stands
    refine ⟨1, ⟨next, engine.world⟩, ?_, ⟨labels, rfl, flushes, standing.arrives⟩, by omega⟩
    simpa only [operations, pending] using Machine.steps_goto stands leads
  | lose jump pending missing =>
    obtain ⟨place, world⟩ := machine
    obtain ⟨labels, rfl, flushes, stands⟩ := agree
    rw [labels] at missing
    simp only [pending] at stands
    have nowhere := address?_eq_none plain missing
    simpa only [Machine.Answers, operations, pending] using Machine.ends_goto stands nowhere
  | rest free nowhere =>
    obtain ⟨n, place, steps, standing⟩ := agree.settle free
    rw [nowhere] at standing
    cases standing with
    | ended =>
      have ends := Automaton.Ends.of_steps steps Machine.ends_behind
      simpa only [Machine.Answers, operations, free, nowhere, finish_of_flushes agree.flushes,
        Outcome.conclusion, List.nil_append] using ends
  | restart frame outer free stands atEnd isLoop =>
    obtain ⟨n, place, steps, standing⟩ := agree.settle free
    obtain ⟨start, jumps, standing⟩ := (stands ▸ standing).restart atEnd isLoop
    refine ⟨n + 1, ⟨start, engine.world⟩, ?_, ⟨agree.labels, rfl, agree.flushes, ?_⟩, by omega⟩
    · simpa only [operations, free, stands, atEnd, List.nil_append] using
        steps.trans (Machine.steps_jump jumps)
    · simp only [free]
      exact standing.arrives
  | close frame outer free stands atEnd isBlock =>
    obtain ⟨n, place, steps, standing⟩ := agree.settle free
    have behind := (stands ▸ standing).close atEnd isBlock
    refine ⟨n, ⟨place, engine.world⟩, ?_, ⟨agree.labels, rfl, agree.flushes, ?_⟩, fun _ => ?_⟩
    · simpa only [operations, free, stands, atEnd] using steps
    · simp only [free]
      exact behind
    · simp only [weight, free, stands]
      exact Position.weight_advance_lt frame outer
  | execute frame outer s flow world free stands here executed =>
    obtain ⟨n, place, steps, standing⟩ := agree.settle free
    have placed := (stands ▸ standing).placed here
    have follows := Machine.follows_execution (s.execution engine.world) placed
    have settings := s.execute_within World.SameSettings.allows engine.world
    rw [executed] at follows settings
    obtain ⟨m, next, others, matched, lighter⟩ := follows
    let after : Engine := { engine with world, line := s.line }
    refine ⟨n + m, ⟨next, world⟩, ?_, ?_, fun still => ?_⟩
    · simpa only [operations, free, stands, here, List.nil_append] using steps.trans others
    · exact after.matches_follow agree.labels (settings.flushes agree.flushes) free stands matched
    · exact after.weight_follow free stands here (lighter (by omega))
  | fail frame outer s e world free stands here failed =>
    obtain ⟨n, place, steps, standing⟩ := agree.settle free
    have placed := (stands ▸ standing).placed here
    have follows := Machine.follows_execution (s.execution engine.world) placed
    rw [failed] at follows
    simpa only [Machine.Answers, operations, free, stands, here, List.nil_append] using
      Automaton.Ends.of_steps steps follows

def followedByMachine (p : Program)
    (plain : ∀ s ∈ p.body, s.Everywhere Statement.PlainBranches) :
    Simulation automaton (Machine.automaton p.flat) where
  related := Matches p
  measure := weight
  world agree := agree.world
  goes := by
    intro engine next machine agree goes
    have answers := agree.move plain engine.step_move
    simp only [automaton] at goes
    generalize engine.step = outcome at answers goes
    cases outcome with
    | ok more after =>
      cases more with
      | true =>
        cases goes
        exact answers
      | false => cases goes
    | error e last => cases goes
  ends := by
    intro engine machine conclusion agree stops
    have answers := agree.move plain engine.step_move
    simp only [automaton] at stops
    generalize engine.step = outcome at answers stops
    cases outcome with
    | ok more after =>
      cases more with
      | true => cases stops
      | false =>
        cases stops
        exact answers
    | error e last =>
      cases stops
      exact answers

end Engine

/-- The engine runs a program that was read like its flat program, if no label is there twice and
the output can be flushed: it performs the same operations in the same order and in the same
worlds, ends if and only if the flat program ends, with the same result, variables, unread input
and output, and runs on forever if and only if the flat program does. -/
theorem flat_program_agrees (source : String) (p : Program) (input : List UInt8) (output : Sink)
    (prompts : Bool) (memory : Nat → Bool) (parsed : Program.ofSource source = .ok p)
    (distinct : p.labelNames.Nodup)
    (flushes : ∀ size, output.failFlush size = false) :
    ∃ engine, Engine.start p input output prompts memory = .ok engine ∧
      engine.behaviour.Agrees
        (Machine.behaviour p.flat (Machine.initial input output prompts memory)) := by
  have accepted : Labels.ofProgram p = .ok ⟨p.markers⟩ :=
    Labels.ofProgram_eq_ok_iff.2 ⟨distinct, rfl⟩
  refine ⟨Engine.initial p input output prompts memory, ?_, ?_⟩
  · rw [Engine.start_eq, accepted]
    rfl
  · rw [Engine.behaviour_eq]
    exact (Engine.followedByMachine p (Program.everywhere_plainBranches parsed)).agrees
      (Engine.initial_matches p input output prompts memory flushes)

theorem flat_program_agrees_after_jump :
    ∃ p engine, Program.ofSource
        "begin goto inner; loop if 1 then begin inner: goto outer end end; outer: write 7 end" =
          .ok p ∧
      Engine.start p [] .unlimited false (fun _ => true) = .ok engine ∧
      engine.behaviour.Agrees
        (Machine.behaviour p.flat (Machine.initial [] .unlimited false (fun _ => true))) ∧
      (engine.trace 9).map Event.operation = [.act (.write [.expr (.integer 7 1)] 1)] := by
  let p : Program := ⟨[.goto "inner" 1,
    .loop [.ifThen (.integer 1 1) (.block [.label "inner" 1, .goto "outer" 1] 1) 1] 1,
    .label "outer" 1, .write [.expr (.integer 7 1)] 1], 1⟩
  have parsed : Program.ofSource
      "begin goto inner; loop if 1 then begin inner: goto outer end end; outer: write 7 end" =
        .ok p := by
    with_unfolding_all rfl
  obtain ⟨engine, started, agrees⟩ :=
    flat_program_agrees _ p [] .unlimited false (fun _ => true) parsed (by decide) fun _ => rfl
  cases Engine.eq_initial_of_start started
  exact ⟨p, _, parsed, started, agrees, by decide +kernel⟩

end GotoLang
