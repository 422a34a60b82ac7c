import GotoLang.Proofs.ActionInvariant
import GotoLang.Proofs.EnginePath
import GotoLang.Proofs.LimitedRun
import GotoLang.Proofs.TokenLine
import GotoLang.Proofs.TreeLine

set_option autoImplicit false

namespace GotoLang

variable {allowed : Nat → Prop}

abbrev FailsOn (allowed : Nat → Prop) {α : Type} (result : Except RuntimeError α) : Prop :=
  Yields (fun _ => True) (fun e => allowed e.line) result

theorem onLine_failsOn {α : Type} {line : Nat} (here : allowed line)
    (result : Except RuntimeFault α) : FailsOn allowed (onLine line result) := by
  cases result with
  | ok a => exact trivial
  | error fault => exact here

theorem Expr.eval_failsOn (env : Environment) {e : Expr} (on : ∀ line ∈ e.lines, allowed line) :
    FailsOn allowed (e.eval env) := by
  induction e with
  | integer | real => exact trivial
  | var name line => exact onLine_failsOn (List.forall_mem_singleton.1 on) _
  | element name index line ih =>
    obtain ⟨here, inside⟩ := List.forall_mem_cons.1 on
    apply Yields.bind (ih inside)
    intro place _
    exact onLine_failsOn here _
  | negate operand line ih =>
    obtain ⟨here, inside⟩ := List.forall_mem_cons.1 on
    apply Yields.bind (ih inside)
    intro value _
    exact onLine_failsOn here _
  | binary op left right line ihLeft ihRight =>
    obtain ⟨here, inside⟩ := List.forall_mem_cons.1 on
    obtain ⟨onLeft, onRight⟩ := List.forall_mem_append.1 inside
    apply Yields.bind (ihLeft onLeft)
    intro a _
    apply Yields.bind (ihRight onRight)
    intro b _
    exact onLine_failsOn here _

theorem Environment.store_failsOn (env : Environment) {target : Target}
    (on : ∀ line ∈ target.lines, allowed line) (value : Value) :
    FailsOn allowed (env.store target value) := by
  obtain ⟨here, inside⟩ := List.forall_mem_cons.1 on
  unfold store
  split
  · exact onLine_failsOn here _
  · rename_i index found
    rw [found] at inside
    apply Yields.bind (index.eval_failsOn env inside)
    intro place _
    exact onLine_failsOn here _

/-- Whatever world it is started in, the action ends with one of these values or with an error on an
allowed line. -/
abbrev Action.FailsOn (allowed : Nat → Prop) {α : Type} (values : α → Prop) (action : Action α) :
    Prop :=
  Keeps (fun _ => True) values (fun e => allowed e.line) action

namespace Action.FailsOn

theorem evaluate {e : Expr} (on : ∀ line ∈ e.lines, allowed line) :
    FailsOn allowed (fun _ => True) (evaluate e) :=
  Keeps.evaluate fun world _ => e.eval_failsOn world.environment on

theorem store {target : Target} (on : ∀ line ∈ target.lines, allowed line) (value : Value) :
    FailsOn allowed (fun _ => True) (store target value) :=
  Keeps.store fun world _ => world.environment.store_failsOn on value

theorem initial {size : Option Expr} {line : Nat}
    (on : ∀ l ∈ line :: optionLines size, allowed l) (type : ElementType) :
    FailsOn allowed (fun _ => True) (initial size type line) := by
  obtain ⟨here, inside⟩ := List.forall_mem_cons.1 on
  cases size with
  | none => exact .pure trivial
  | some size =>
    apply Keeps.bind (evaluate inside)
    intro length _
    exact .vector fun memory => onLine_failsOn here _

theorem readTarget {line : Nat} (here : allowed line) {target : Target}
    (on : ∀ line ∈ target.lines, allowed line) :
    FailsOn allowed (fun _ => True) (readTarget line target) := by
  apply Keeps.bind (.prompt (fun _ _ _ => trivial) here here target.name)
  intro _ _
  apply Keeps.bind (.nextLine (fun _ _ _ => trivial) here here)
  intro text _
  exact store on _

theorem writeItem {line : Nat} (here : allowed line) {item : WriteItem}
    (on : ∀ line ∈ item.lines, allowed line) :
    FailsOn allowed (fun _ => True) (writeItem line item) := by
  apply Keeps.writeItem (fun _ _ _ => trivial) here
  intro e same world _
  subst same
  exact e.eval_failsOn world.environment on

end Action.FailsOn

def Flow.On (allowed : Nat → Prop) : Flow → Prop
  | jump _ line => allowed line
  | _ => True

theorem Statement.line_mem_ownLines (s : Statement) : s.line ∈ s.ownLines := by
  cases s <;> exact List.mem_cons_self

/-- A statement reports only lines that are in it. -/
theorem Statement.execute_failsOn {s : Statement} (on : s.On allowed) :
    s.execute.FailsOn allowed (Flow.On allowed) := by
  induction s with
  | block | loop | label | empty => exact .pure trivial
  | goto name line =>
    have here := List.forall_mem_singleton.1 on.here
    exact .pure here
  | ifThen condition branch line ih =>
    obtain ⟨own, inside⟩ := Everywhere.ifThen.1 on
    apply Action.Keeps.bind (Action.FailsOn.evaluate (List.forall_mem_cons.1 own).2)
    intro value _
    by_cases holds : value.holds = true
    · simpa only [if_pos holds] using ih inside
    · simpa only [if_neg holds] using .pure trivial
  | ifThenElse condition branch other line ihBranch ihOther =>
    obtain ⟨own, inBranch, inOther⟩ := Everywhere.ifThenElse.1 on
    apply Action.Keeps.bind (Action.FailsOn.evaluate (List.forall_mem_cons.1 own).2)
    intro value _
    by_cases holds : value.holds = true
    · simpa only [if_pos holds] using ihBranch inBranch
    · simpa only [if_neg holds] using ihOther inOther
  | declare names size type line =>
    apply Action.Keeps.bind (Action.FailsOn.initial on.here type)
    intro value _
    have declares : ∀ name ∈ names,
        Action.FailsOn allowed (fun _ => True) (Action.declare value name) :=
      fun _ _ _ _ => ⟨trivial, trivial⟩
    apply Action.Keeps.bind (.forM declares)
    exact fun _ _ => .pure trivial
  | assign target e =>
    obtain ⟨place, inside⟩ := List.forall_mem_append.1 on.here
    apply Action.Keeps.bind (Action.FailsOn.evaluate inside)
    intro value _
    apply Action.Keeps.bind (Action.FailsOn.store place value)
    exact fun _ _ => .pure trivial
  | read targets line =>
    obtain ⟨here, inside⟩ := List.forall_mem_cons.1 on.here
    apply Action.Keeps.bind
    · exact .forM fun target member =>
        Action.FailsOn.readTarget here (List.forall_mem_flatMap.1 inside target member)
    · exact fun _ _ => .pure trivial
  | write items line =>
    obtain ⟨here, inside⟩ := List.forall_mem_cons.1 on.here
    apply Action.Keeps.bind
    · exact .forM fun item member =>
        Action.FailsOn.writeItem here (List.forall_mem_flatMap.1 inside item member)
    · intro _ _
      apply Action.Keeps.bind (.emit (fun _ _ _ => trivial) here "\n")
      exact fun _ _ => .pure trivial

theorem labelSitesIn_on {enclosing : Nat} {body : List Statement}
    (each : ∀ s ∈ body, ∀ site ∈ s.labelSites enclosing, allowed site.line) :
    ∀ site ∈ labelSitesIn enclosing body, allowed site.line := by
  induction body with
  | nil => exact List.forall_mem_nil _
  | cons s rest ih =>
    obtain ⟨first, others⟩ := List.forall_mem_cons.1 each
    exact List.forall_mem_append.2 ⟨first, ih others⟩

theorem Statement.labelSites_on {s : Statement} (on : s.On allowed) (enclosing : Nat) :
    ∀ site ∈ s.labelSites enclosing, allowed site.line := by
  induction s generalizing enclosing with
  | block body line ih =>
    have inside := (Everywhere.block.1 on).2
    exact labelSitesIn_on fun t member => ih t member (inside t member) (enclosing + 1)
  | loop body line ih =>
    have inside := (Everywhere.loop.1 on).2
    exact labelSitesIn_on fun t member => ih t member (inside t member) (enclosing + 1)
  | ifThen condition branch line ih => exact ih (Everywhere.ifThen.1 on).2 enclosing
  | ifThenElse condition branch other line ihBranch ihOther =>
    obtain ⟨_, inBranch, inOther⟩ := Everywhere.ifThenElse.1 on
    exact List.forall_mem_append.2 ⟨ihBranch inBranch enclosing, ihOther inOther enclosing⟩
  | label name line => exact List.forall_mem_singleton.2 (List.forall_mem_singleton.1 on.here)
  | declare | assign | read | write | goto | empty => exact List.forall_mem_nil _

/-- A program that is refused is refused for two of its labels. -/
theorem Labels.ofProgram_lines {p : Program} (on : ∀ line ∈ p.lines, allowed line)
    {e : RuntimeError} (refused : ofProgram p = .error e) :
    allowed e.line ∧
      ∀ name firstLine, e.fault = .duplicateLabel name firstLine → allowed firstLine := by
  have sites : ∀ site ∈ p.labelSites, allowed site.line := by
    have inside := (Program.forall_mem_lines.1 on).2
    exact labelSitesIn_on fun s member => (s.labelSites_on (inside s member) 0)
  obtain ⟨first, again, repeated, rfl⟩ := firstRepeat_of_ofProgram refused
  obtain ⟨before, after, split, _, member, _⟩ := repeated
  rw [split] at sites
  obtain ⟨earlier, later⟩ := List.forall_mem_append.1 sites
  refine ⟨(List.forall_mem_cons.1 later).1, ?_⟩
  intro name firstLine same
  cases same
  exact earlier first member

namespace Engine

/-- The engine stands in its program, and the lines that it holds are allowed. -/
structure On (allowed : Nat → Prop) (p : Program) (engine : Engine) : Prop where
  onPath : engine.OnPath p
  line : allowed engine.line
  pending : ∀ jump, engine.jump? = some jump → allowed jump.line

variable {p : Program} {engine : Engine} {outcome : Outcome Bool}

theorem initial_on (on : ∀ line ∈ p.lines, allowed line) (input : List UInt8) (output : Sink)
    (prompts : Bool) (memory : Nat → Bool) :
    (initial p input output prompts memory).On allowed p where
  onPath := initial_onPath p input output prompts memory
  line := (Program.forall_mem_lines.1 on).1
  pending _ none := by cases none

/-- The statement under the cursor is one of the program. -/
theorem On.current (on : ∀ line ∈ p.lines, allowed line) (stays : engine.On allowed p)
    {frame : Frame} {outer : Position} {s : Statement} (stands : engine.position = frame :: outer)
    (here : frame.current? = some s) : s.On allowed := by
  have inside := (Program.forall_mem_lines.1 on).2
  exact (stays.onPath.isPath stands).everywhere inside rfl s (Frame.mem_of_current? here)

theorem On.move (on : ∀ line ∈ p.lines, allowed line) (stays : engine.On allowed p)
    (move : engine.Move outcome) : outcome.engine.On allowed p := by
  have onPath := stays.onPath.move move
  cases move with
  | land | lose => exact ⟨onPath, stays.line, fun _ none => by cases none⟩
  | rest | restart | close => exact ⟨onPath, stays.line, stays.pending⟩
  | execute frame outer s flow world free stands here executed =>
    have inside := stays.current on stands here
    have line : allowed s.line := inside.here s.line s.line_mem_ownLines
    have announced := s.execute_failsOn inside engine.world trivial
    rw [executed] at announced
    cases flow with
    | next | enter => exact ⟨onPath, line, stays.pending⟩
    | jump name jumpLine =>
      refine ⟨onPath, line, ?_⟩
      intro jump same
      cases same
      exact announced.1
  | fail frame outer s e world free stands here failed =>
    have inside := stays.current on stands here
    exact ⟨onPath, inside.here s.line s.line_mem_ownLines, stays.pending⟩

theorem On.error (on : ∀ line ∈ p.lines, allowed line) (stays : engine.On allowed p)
    {e : RuntimeError} {last : Engine} (failed : engine.step = .error e last) :
    allowed e.line := by
  have move := engine.step_move
  rw [failed] at move
  cases move with
  | lose jump pending missing => exact stays.pending jump pending
  | fail frame outer s _ world free stands here stopped =>
    have inside := stays.current on stands here
    have reported := s.execute_failsOn inside engine.world trivial
    rw [stopped] at reported
    exact reported.1

theorem line_of_finish {e : RuntimeError} {last : Engine} (failed : engine.finish = .error e last) :
    e.line = engine.line := by
  rw [finish, Action.flush_apply] at failed
  by_cases fails : engine.world.output.refusesFlush = true
  · rw [if_pos fails] at failed
    cases failed
    rfl
  · rw [if_neg fails] at failed
    cases failed

theorem On.of_reachable {first : Engine} (on : ∀ line ∈ p.lines, allowed line)
    (begins : first.On allowed p) (reached : Reachable first engine) : engine.On allowed p := by
  apply reached.invariant begins
  exact fun _ _ stays move => stays.move on move

/-- A run that fails reports an allowed line, also if it fails when it has come to its end. -/
theorem On.runFor (on : ∀ line ∈ p.lines, allowed line) (stays : engine.On allowed p) {steps : Nat}
    {e : RuntimeError} {last : Engine} (failed : engine.runFor steps = .ended (.error e last)) :
    allowed e.line := by
  induction steps generalizing engine with
  | zero => cases failed
  | succ steps ih =>
    have next := stays.move on engine.step_move
    rw [Engine.runFor] at failed
    cases stepped : engine.step with
    | ok goes after =>
      rw [stepped] at failed next
      cases goes with
      | true => exact ih next failed
      | false =>
        rw [line_of_finish (Progress.ended.inj failed)]
        exact next.line
    | error f after =>
      rw [stepped] at failed
      cases failed
      exact stays.error on stepped

end Engine

/-- Lines are counted from 1 in a source text, and every newline begins another one. -/
abbrev InSource (source : String) (line : Nat) : Prop :=
  Spans 1 source.toList line

theorem tokenize_lines (source : String) :
    Yields (fun tokens => (∀ l ∈ tokens, InSource source l.line) ∧
        tokens.Pairwise fun one other => one.line ≤ other.line)
      (fun e => InSource source e.line) (tokenize source) :=
  tokensFrom_lines 1 source.toList

theorem ofSource_lines (source : String) :
    Yields (fun p => ∀ line ∈ p.lines, InSource source line) (fun e => InSource source e.line)
      (Program.ofSource source) := by
  apply Yields.bind (tokenize_lines source)
  intro tokens lines
  exact Grammar.program_lines lines.1 fun _ => .first 1 source.toList

/-- Every line that is reported for a source text is one of its lines: that of a token or of a fault
in the text, every line in the tree of its program, and the line of an error for which the program
is refused, a step fails, or a run ends. The lines of tokens never go down. -/
theorem reported_lines_in_source (source : String) (input : List UInt8) (output : Sink)
    (prompts : Bool) (memory : Nat → Bool) :
    (∀ tokens, tokenize source = .ok tokens → (∀ l ∈ tokens, InSource source l.line) ∧
      tokens.Pairwise fun one other => one.line ≤ other.line) ∧
    (∀ e, tokenize source = .error e → InSource source e.line) ∧
    (∀ e, Program.ofSource source = .error e → InSource source e.line) ∧
    ∀ p, Program.ofSource source = .ok p →
      (∀ line ∈ p.lines, InSource source line) ∧
      (∀ e, Engine.start p input output prompts memory = .error e → InSource source e.line ∧
        ∀ name firstLine, e.fault = .duplicateLabel name firstLine → InSource source firstLine) ∧
      ∀ first, Engine.start p input output prompts memory = .ok first →
        (∀ engine, Engine.Reachable first engine → ∀ e last, engine.step = .error e last →
          InSource source e.line) ∧
        ∀ steps e last, first.runFor steps = .ended (.error e last) → InSource source e.line := by
  have tokenized := tokenize_lines source
  have parsed := ofSource_lines source
  refine ⟨?_, ?_, ?_, ?_⟩
  · intro tokens found
    rw [found] at tokenized
    exact tokenized
  · intro e found
    rw [found] at tokenized
    exact tokenized
  · intro e found
    rw [found] at parsed
    exact parsed
  · intro p found
    rw [found] at parsed
    have on : ∀ line ∈ p.lines, InSource source line := parsed
    refine ⟨on, ?_, ?_⟩
    · intro e refused
      rw [Engine.start_eq] at refused
      cases built : Labels.ofProgram p with
      | error f =>
        rw [built] at refused
        cases refused
        exact Labels.ofProgram_lines on built
      | ok labels =>
        rw [built] at refused
        cases refused
    · intro first started
      have begins : first.On (InSource source) p := by
        rw [Engine.eq_initial_of_start started]
        exact Engine.initial_on on input output prompts memory
      constructor
      · intro engine reached e last failed
        exact (Engine.On.of_reachable on begins reached).error on failed
      · intro steps e last failed
        exact begins.runFor on failed

/-- The division is on the fourth line, behind a comment of two lines. Where the tokens end too early
the rules themselves report no line of the text. -/
theorem reported_lines_in_source_behind_comment :
    (∃ p first engine last,
      Program.ofSource "begin n: integer;\n\x7b two\nlines \x7d\nwrite 1 / n end" = .ok p ∧
      Engine.start p [] .unlimited false (fun _ => true) = .ok first ∧
      Engine.Reachable first engine ∧ engine.step = .error ⟨.divisionByZero, 4⟩ last ∧
      InSource "begin n: integer;\n\x7b two\nlines \x7d\nwrite 1 / n end" 4) ∧
    (tokenize "begin\nwrite 1 +" >>= Grammar.wholeProgram) = .error ⟨.endOfInput, 0⟩ ∧
    Program.ofSource "begin\nwrite 1 +" = .error ⟨.endOfInput, 2⟩ ∧
    InSource "begin\nwrite 1 +" 2 := by
  let p : Program := ⟨[.declare ["n"] none .integer 1,
    .write [.expr (.binary .div (.integer 1 4) (.var "n" 4) 4)] 4], 1⟩
  have parsed : Program.ofSource "begin n: integer;\n\x7b two\nlines \x7d\nwrite 1 / n end" =
      .ok p := by
    with_unfolding_all rfl
  let first := Engine.initial p [] .unlimited false (fun _ => true)
  have started : Engine.start p [] .unlimited false (fun _ => true) = .ok first := rfl
  let engine := first.step.engine
  have reached : Engine.Reachable first engine := .call .start
  obtain ⟨after, failed⟩ : ∃ after, engine.step = .error ⟨.divisionByZero, 4⟩ after :=
    Outcome.error?_eq_some_iff.1 (by decide +kernel)
  have raw : (tokenize "begin\nwrite 1 +" >>= Grammar.wholeProgram) = .error ⟨.endOfInput, 0⟩ := by
    with_unfolding_all rfl
  have cut : Program.ofSource "begin\nwrite 1 +" = .error ⟨.endOfInput, 2⟩ := by
    with_unfolding_all rfl
  obtain ⟨_, _, _, runs⟩ := reported_lines_in_source
    "begin n: integer;\n\x7b two\nlines \x7d\nwrite 1 / n end" [] .unlimited false (fun _ => true)
  obtain ⟨_, _, steps⟩ := runs p parsed
  obtain ⟨_, _, refused, _⟩ :=
    reported_lines_in_source "begin\nwrite 1 +" [] .unlimited false (fun _ => true)
  have reported := (steps first started).1 engine reached _ _ failed
  exact ⟨⟨p, first, engine, _, parsed, started, reached, failed, reported⟩, raw, cut,
    refused _ cut⟩

end GotoLang
