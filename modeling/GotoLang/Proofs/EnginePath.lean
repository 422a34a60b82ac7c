import GotoLang.Proofs.Execution
import GotoLang.Proofs.LabelTable

set_option autoImplicit false

namespace GotoLang

/-- A statement that enters a frame opens its sequence at the first statement. -/
theorem Statement.Execution.opens {s : Statement} {world after : World} {performed : List Operation}
    {result : EStateM.Result RuntimeError World Flow} {frame : Frame}
    (execution : Execution world s performed result) (entered : result = .ok (.enter frame) after) :
    s.Opens frame.statements frame.isLoop ∧ frame.cursor = 0 := by
  induction execution with
  | block body line =>
    cases entered
    exact ⟨.block body line, rfl⟩
  | loop body line =>
    cases entered
    exact ⟨.loop body line, rfl⟩
  | chosen tested holds inner ih => exact ⟨.ifThen (ih entered).1, (ih entered).2⟩
  | branch tested holds inner ih => exact ⟨.branch (ih entered).1, (ih entered).2⟩
  | other tested fails inner ih => exact ⟨.other (ih entered).1, (ih entered).2⟩
  | goto | label | empty | done | failed | untested | skipped | undecided => cases entered

namespace Engine

/-- The engine knows the labels of its program, and its frames are none at all or a path. -/
structure OnPath (p : Program) (engine : Engine) : Prop where
  labels : engine.labels.markers = p.markers
  stands : engine.position = [] ∧ engine.jump? = none ∨ engine.position.IsPath p

theorem initial_onPath (p : Program) (input : List UInt8) (output : Sink) (prompts : Bool)
    (memory : Nat → Bool) :
    (initial p input output prompts memory).OnPath p :=
  ⟨rfl, Or.inr (.root 0 (Nat.zero_le p.body.length))⟩

theorem OnPath.isPath {p : Program} {engine : Engine} {frame : Frame} {outer : Position}
    (sound : engine.OnPath p) (stands : engine.position = frame :: outer) :
    Position.IsPath p (frame :: outer) := by
  rcases sound.stands with ⟨nowhere, _⟩ | path
  · rw [nowhere] at stands
    cases stands
  · exact stands ▸ path

theorem OnPath.move {p : Program} {engine : Engine} {outcome : Outcome Bool}
    (sound : engine.OnPath p) (move : engine.Move outcome) : outcome.engine.OnPath p := by
  cases move with
  | land jump marker pending found =>
    have member : marker ∈ p.markers := sound.labels ▸ List.mem_of_find?_eq_some found
    obtain ⟨_, _, _, _, path, _⟩ := p.markers_stand marker member
    exact ⟨sound.labels, Or.inr path⟩
  | lose jump pending missing =>
    rcases sound.stands with ⟨_, free⟩ | path
    · rw [free] at pending
      cases pending
    · exact ⟨sound.labels, Or.inr path⟩
  | rest free nowhere => exact sound
  | restart frame outer free stands atEnd isLoop =>
    exact ⟨sound.labels, Or.inr ((sound.isPath stands).move 0 (Nat.zero_le _))⟩
  | close frame outer free stands atEnd isBlock =>
    refine ⟨sound.labels, ?_⟩
    rcases (sound.isPath stands).close with nowhere | path
    · exact Or.inl ⟨nowhere, free⟩
    · exact Or.inr path
  | execute frame outer s flow world free stands here executed =>
    have path := sound.isPath stands
    cases flow with
    | next =>
      refine ⟨sound.labels, Or.inr ?_⟩
      simp only [Outcome.engine, follow, stands, advance]
      exact path.next here
    | enter inner =>
      obtain ⟨opens, start⟩ := (s.execution engine.world).opens executed
      refine ⟨sound.labels, Or.inr ?_⟩
      simp only [Outcome.engine, follow, stands]
      exact .nest path ⟨s, here, opens⟩ (start ▸ Nat.zero_le _)
    | jump name line => exact ⟨sound.labels, Or.inr (stands ▸ path)⟩
  | fail frame outer s e world free stands here failed =>
    exact ⟨sound.labels, Or.inr (stands ▸ sound.isPath stands)⟩

theorem Reachable.onPath {p : Program} {input : List UInt8} {output : Sink} {prompts : Bool}
    {memory : Nat → Bool} {engine : Engine}
    (reached : Reachable (initial p input output prompts memory) engine) :
    engine.OnPath p :=
  reached.invariant (initial_onPath p input output prompts memory)
    fun _ _ sound move => sound.move move

/-- In every state that calls of `step` lead to, failed ones included, the frames are a path
through the program, or there are none and no jump is pending. They are no more than blocks and
loops are nested in the program, and one for the program itself. -/
theorem frames_are_path (p : Program) (input : List UInt8) (output : Sink) (prompts : Bool)
    (memory : Nat → Bool) (first engine : Engine)
    (started : start p input output prompts memory = .ok first)
    (reached : Reachable first engine) :
    (engine.position = [] ∧ engine.jump? = none ∨ engine.position.IsPath p) ∧
      engine.position.length ≤ 1 + nestingOf p.body ∧
      (engine.jump?.isSome = true → engine.position ≠ []) ∧
      (engine.isHalted = true ↔ engine.position = []) := by
  obtain rfl := eq_initial_of_start started
  have stands := reached.onPath.stands
  refine ⟨stands, ?_⟩
  rcases stands with ⟨nowhere, free⟩ | path
  · simp [nowhere, free, isHalted]
  · cases position : engine.position with
    | nil =>
      rw [position] at path
      cases path
    | cons frame outer =>
      rw [position] at path
      have shallow := path.length_add_nestingOf_le rfl
      refine ⟨by omega, fun _ => List.cons_ne_nil frame outer, ?_⟩
      simp [isHalted, position]

theorem frames_are_path_after_jump :
    ∃ p first, Program.ofSource "begin goto middle; loop begin middle: write 1 end end end" =
          .ok p ∧
      start p [] .unlimited false (fun _ => true) = .ok first ∧
      first.step.engine.step.engine.position.length = 3 ∧
      first.step.engine.step.engine.position.IsPath p := by
  let p : Program := ⟨[.goto "middle" 1,
    .loop [.block [.label "middle" 1, .write [.expr (.integer 1 1)] 1] 1] 1], 1⟩
  have parsed : Program.ofSource
      "begin goto middle; loop begin middle: write 1 end end end" = .ok p := by
    with_unfolding_all rfl
  let first := initial p [] .unlimited false (fun _ => true)
  have started : start p [] .unlimited false (fun _ => true) = .ok first := rfl
  have deep : first.step.engine.step.engine.position.length = 3 := rfl
  obtain ⟨stands, _⟩ := frames_are_path p [] .unlimited false (fun _ => true) first
    first.step.engine.step.engine started (.call (.call .start))
  refine ⟨p, first, parsed, started, deep, stands.resolve_left ?_⟩
  rintro ⟨nowhere, _⟩
  rw [nowhere] at deep
  cases deep

theorem labels_eq_of_reachable {p : Program} {input : List UInt8} {output : Sink} {prompts : Bool}
    {memory : Nat → Bool} {engine : Engine}
    (reached : Reachable (initial p input output prompts memory) engine) :
    engine.labels = ⟨p.markers⟩ :=
  congrArg Labels.mk reached.onPath.labels

/-- An engine that stands at a label stands where a jump to the label leads. -/
theorem find?_label_of_reachable {p : Program} {input : List UInt8} {output : Sink}
    {prompts : Bool} {memory : Nat → Bool} {engine : Engine} {frame : Frame} {outer : Position}
    {name : String}
    {line : Nat} (distinct : p.labelNames.Nodup)
    (reached : Reachable (initial p input output prompts memory) engine)
    (stands : engine.position = frame :: outer)
    (here : frame.current? = some (.label name line)) :
    (Labels.mk p.markers).find? name = some ⟨name, line, frame :: outer⟩ := by
  have member := (reached.onPath.isPath stands).label_mem_markers here
  rw [← p.markers_map_name] at distinct
  exact Labels.find?_eq_some_of_mem distinct member

theorem step_of_label {labels : Labels} {frame : Frame} {outer : Position} {name : String}
    {line : Nat} (here : frame.current? = some (.label name line)) (world : World) (before : Nat) :
    step ⟨labels, frame :: outer, none, world, before⟩ =
      .ok true ⟨labels, frame.next :: outer, none, world, line⟩ := by
  simp only [step, here]
  rfl

/-- Falling into a label and jumping to it agree. An engine without a pending jump that stands at
a label has exactly the frames recorded for it, and an engine of the same program that is about to
jump there from anywhere, with the same variables, input and output, goes on in the same way. -/
theorem label_reached_alike (p : Program) (input : List UInt8) (output : Sink) (prompts : Bool)
    (memory : Nat → Bool) (first engine : Engine)
    (started : start p input output prompts memory = .ok first)
    (reached : Reachable first engine) (free : engine.jump? = none) (frame : Frame)
    (outer : Position) (stands : engine.position = frame :: outer) (name : String) (line : Nat)
    (here : frame.current? = some (.label name line)) :
    (∃ marker, engine.labels.find? name = some marker ∧ marker.position = engine.position) ∧
      ∀ otherInput otherOutput otherPrompts otherMemory otherFirst jumping jumpLine,
        start p otherInput otherOutput otherPrompts otherMemory = .ok otherFirst →
        Reachable otherFirst jumping → jumping.jump? = some ⟨name, jumpLine⟩ →
        jumping.world = engine.world →
        ∃ landed, jumping.step = .ok true landed ∧ landed.position = engine.position ∧
          landed.jump? = none ∧ landed.world = engine.world ∧ landed.step = engine.step ∧
          ∀ steps, landed.runFor (steps + 1) = engine.runFor (steps + 1) := by
  have distinct := distinct_of_start started
  obtain rfl := eq_initial_of_start started
  have found := find?_label_of_reachable distinct reached stands here
  have table := labels_eq_of_reachable reached
  have recorded : engine.labels.find? name = some ⟨name, line, frame :: outer⟩ := by
    rw [table]
    exact found
  refine ⟨⟨_, recorded, stands.symm⟩, ?_⟩
  intro otherInput otherOutput otherPrompts otherMemory otherFirst jumping jumpLine started jumps
    pending same
  obtain rfl := eq_initial_of_start started
  have sameTable := labels_eq_of_reachable jumps
  obtain ⟨labels, position, jump?, world, before⟩ := engine
  obtain ⟨otherLabels, otherPosition, otherJump?, otherWorld, otherBefore⟩ := jumping
  cases free
  cases stands
  cases table
  cases sameTable
  cases pending
  cases same
  have steps : step ⟨⟨p.markers⟩, frame :: outer, none, world, otherBefore⟩ =
      step ⟨⟨p.markers⟩, frame :: outer, none, world, before⟩ := by
    rw [step_of_label here, step_of_label here]
  refine ⟨⟨⟨p.markers⟩, frame :: outer, none, world, otherBefore⟩, ?_, rfl, rfl, rfl, steps, ?_⟩
  · simp only [step, carryOut, Labels.resolve, found]
  · intro count
    rw [runFor, runFor, steps]

theorem label_reached_alike_in_loop :
    ∃ p first, Program.ofSource "begin loop again: goto again end end" = .ok p ∧
      start p [] .unlimited false (fun _ => true) = .ok first ∧
      (∃ marker, first.step.engine.labels.find? "again" = some marker ∧
        marker.position = first.step.engine.position) ∧
      ∃ landed, first.step.engine.step.engine.step.engine.step = .ok true landed ∧
        landed.position = first.step.engine.position ∧ landed.step = first.step.engine.step := by
  let body : List Statement := [.label "again" 1, .goto "again" 1]
  let p : Program := ⟨[.loop body 1], 1⟩
  have parsed : Program.ofSource "begin loop again: goto again end end" = .ok p := by
    with_unfolding_all rfl
  let first := initial p [] .unlimited false (fun _ => true)
  have started : start p [] .unlimited false (fun _ => true) = .ok first := rfl
  have falling : Reachable first first.step.engine := .call .start
  have jumping : Reachable first first.step.engine.step.engine.step.engine :=
    .call (.call falling)
  obtain ⟨recorded, alike⟩ := label_reached_alike p [] .unlimited false (fun _ => true) first
    first.step.engine started falling rfl ⟨body, 0, true⟩ [p.root] rfl "again" 1 rfl
  obtain ⟨landed, lands, position, _, _, goesOn, _⟩ :=
    alike [] .unlimited false (fun _ => true) first
    first.step.engine.step.engine.step.engine 1 started jumping rfl rfl
  exact ⟨p, first, parsed, started, recorded, landed, lands, position, goesOn⟩

end Engine

end GotoLang
