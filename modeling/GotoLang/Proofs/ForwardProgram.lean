import GotoLang.Proofs.EnginePath
import GotoLang.Proofs.TextOrder

set_option autoImplicit false

namespace GotoLang

def Statement.labelName? : Statement → Option String
  | label name _ => some name
  | _ => none

/-- There are no loops, and a label that a `goto` names comes behind it if it exists. -/
structure Program.ForwardOnly (p : Program) : Prop where
  noLoop : ∀ body line, .loop body line ∉ p.all
  forward : ∀ before after name line, p.all = before ++ .goto name line :: after →
    (∀ labelLine, .label name labelLine ∉ p.all) ∨ ∃ labelLine, .label name labelLine ∈ after

theorem labelSitesIn_map_name {body : List Statement} {enclosing : Nat}
    (each : ∀ s ∈ body, ∀ depth,
      (s.labelSites depth).map (·.name) = s.all.filterMap Statement.labelName?) :
    (labelSitesIn enclosing body).map (·.name) = (allOf body).filterMap Statement.labelName? := by
  induction body with
  | nil => rfl
  | cons s rest ih =>
    have ⟨first, others⟩ := List.forall_mem_cons.1 each
    rw [labelSitesIn, allOf, List.map_append, List.filterMap_append, first enclosing, ih others]

theorem Statement.labelSites_map_name (s : Statement) (enclosing : Nat) :
    (s.labelSites enclosing).map (·.name) = s.all.filterMap labelName? := by
  induction s generalizing enclosing with
  | block body line ih | loop body line ih => exact labelSitesIn_map_name ih
  | ifThen condition branch line ih => exact ih enclosing
  | ifThenElse condition branch other line ihBranch ihOther =>
    simp only [labelSites, all, List.map_append, List.filterMap_cons, List.filterMap_append,
      labelName?, ihBranch, ihOther]
  | declare | assign | read | write | goto | label | empty => rfl

theorem Program.labelNames_eq (p : Program) :
    p.labelNames = p.all.filterMap Statement.labelName? :=
  labelSitesIn_map_name fun s _ => s.labelSites_map_name

/-- A name that is marked once is not marked in two parts of the text. -/
theorem Program.label_not_twice {p : Program} (distinct : p.labelNames.Nodup)
    {before after : List Statement} (split : p.all = before ++ after) {name : String}
    {line again : Nat} (first : .label name line ∈ before) (second : .label name again ∈ after) :
    False := by
  rw [p.labelNames_eq, split, List.filterMap_append] at distinct
  have apart := (List.nodup_append.1 distinct).2.2
  apply apart name _ name _ rfl
  · exact List.mem_filterMap.2 ⟨_, first, rfl⟩
  · exact List.mem_filterMap.2 ⟨_, second, rfl⟩

/-- A `goto` that is executed in the place of a statement is in the text of that statement. -/
theorem Statement.Execution.spans_of_jump {s : Statement} {world after : World}
    {performed : List Operation} {result : EStateM.Result RuntimeError World Flow} {name : String}
    {line : Nat} (execution : Execution world s performed result)
    (jumps : result = .ok (.jump name line) after) :
    s.Spans [.opens (.goto name line), .closes] := by
  induction execution with
  | goto name line =>
    cases jumps
    exact .self rfl
  | chosen _ _ _ ih => exact (ih jumps).ifThen _ _
  | branch _ _ _ ih => exact (ih jumps).branch _ _ _
  | other _ _ _ ih => exact (ih jumps).other _ _ _
  | block | loop | label | empty | done | failed | untested | skipped | undecided => cases jumps

/-- From a label that a `goto` leads to, less of the text is left than behind the `goto`. -/
theorem Program.ForwardOnly.length_le {p : Program} (forward : p.ForwardOnly)
    (distinct : p.labelNames.Nodup) {name : String} {line labelLine : Nat}
    {front behind before after : List Bracket}
    (jump : p.brackets = front ++ .opens (.goto name line) :: .closes :: behind)
    (label : p.brackets = before ++ .opens (.label name labelLine) :: after) :
    after.length + 1 ≤ behind.length := by
  have jumpText := p.filterMap_brackets
  have labelText := p.filterMap_brackets
  rw [jump] at jumpText
  rw [label] at labelText
  simp only [List.filterMap_append, List.filterMap_cons, Bracket.statement?] at jumpText labelText
  have marked : .label name labelLine ∈ p.all := by
    rw [← labelText]
    exact List.mem_append_right _ List.mem_cons_self
  obtain ⟨againLine, again⟩ : ∃ again, .label name again ∈ behind.filterMap Bracket.statement? := by
    rcases forward.forward _ _ name line jumpText.symm with absent | later
    · exact absurd marked (absent labelLine)
    · exact later
  -- One text is split at the `goto` and at the label. In front of the `goto` the label cannot be,
  -- for its name would be marked twice.
  rcases List.append_eq_append_iff.1 (jump.symm.trans label) with
    ⟨between, rfl, same⟩ | ⟨between, rfl, same⟩
  · rcases between with _ | ⟨_, _ | ⟨_, between⟩⟩
    · cases same
    · cases same
    · obtain ⟨_, _, rfl⟩ : _ ∧ _ ∧ behind = between ++ .opens (.label name labelLine) :: after := by
        simpa using same
      simp only [List.length_append, List.length_cons]
      omega
  · cases between with
    | nil => cases same
    | cons bracket between =>
      have opened : bracket = .opens (.label name labelLine) := (List.cons.inj same).1.symm
      have earlier : .label name labelLine ∈ (before ++ bracket :: between).filterMap
          Bracket.statement? := by
        apply List.mem_filterMap.2 ⟨bracket, _, _⟩
        · exact List.mem_append_right before List.mem_cons_self
        · rw [opened, Bracket.statement?]
      have later := List.mem_cons_of_mem (.goto name line) again
      exact (label_not_twice distinct jumpText.symm earlier later).elim

/-- Where there is no loop, none is opened. -/
theorem Statement.Opens.isLoop_eq_false {s : Statement} {body : List Statement} {isLoop : Bool}
    (opens : s.Opens body isLoop)
    (everywhere : s.Everywhere fun t => ∀ body line, t ≠ .loop body line) : isLoop = false := by
  induction opens with
  | block body line => rfl
  | loop body line => exact absurd rfl (everywhere.here body line)
  | ifThen _ ih => exact ih (Everywhere.ifThen.1 everywhere).2
  | branch _ ih => exact ih (Everywhere.ifThenElse.1 everywhere).2.1
  | other _ ih => exact ih (Everywhere.ifThenElse.1 everywhere).2.2

/-- How many steps may be left from a position, for the text that is left and the end of the
program. -/
inductive Position.Left (p : Program) : Position → Nat → Prop
  | nowhere : Left p [] 1
  | within {frame : Frame} {outer : Position} {after : List Bracket}
      (ends : EndsBefore p (frame :: outer) after) :
      Left p (frame :: outer) (frame.brackets.length + after.length + 2)

/-- How many steps may be left for an engine. A jump that is pending takes one to be carried
out. -/
inductive Engine.Left (p : Program) (engine : Engine) : Nat → Prop
  | standing {n : Nat} (free : engine.jump? = none) (left : engine.position.Left p n) :
      Left p engine n
  | jumping {jump : Jump} {marker : Marker} {n : Nat} (pending : engine.jump? = some jump)
      (found : engine.labels.find? jump.label = some marker) (left : marker.position.Left p n) :
      Left p engine (n + 1)
  | lost {jump : Jump} (pending : engine.jump? = some jump)
      (missing : engine.labels.find? jump.label = none) : Left p engine 1

namespace Position

variable {p : Program} {frame : Frame} {outer : Position} {s : Statement} {n : Nat}

theorem Left.pos {position : Position} (left : position.Left p n) : 0 < n := by
  cases left <;> omega

/-- Behind a statement less is left than in front of it, by the text of the statement. -/
theorem Left.next (left : Left p (frame :: outer) n) (here : frame.current? = some s) :
    ∃ m, m + s.brackets.length = n ∧ Left p (frame.next :: outer) m := by
  cases left with
  | @within _ _ after ends =>
    refine ⟨frame.next.brackets.length + after.length + 2, ?_, .within (ends.move _)⟩
    rw [Frame.brackets_of_current? here, List.length_append]
    omega

/-- Inside a statement less is left than in front of it. -/
theorem Left.enter {body : List Statement} {isLoop : Bool} (left : Left p (frame :: outer) n)
    (here : frame.current? = some s) (opens : s.Opens body isLoop) :
    ∃ m < n, Left p (⟨body, 0, isLoop⟩ :: frame :: outer) m := by
  cases left with
  | @within _ _ after ends =>
    obtain ⟨opener, front, behind, split⟩ := opens.spans
    have inside : EndsBefore p (⟨body, 0, isLoop⟩ :: frame :: outer)
        (.closes :: (behind ++ (frame.next.brackets ++ after))) := .nest ends here split
    refine ⟨_, ?_, .within inside⟩
    rw [Frame.brackets_of_current? here, split]
    simp only [Frame.brackets, List.drop_zero, List.length_append, List.length_cons,
      List.length_nil]
    omega

/-- Behind a sequence less is left than at its end. -/
theorem Left.close (left : Left p (frame :: outer) n) (atEnd : frame.current? = none) :
    ∃ m < n, Left p (Engine.advance outer) m := by
  cases left with
  | @within _ _ after ends =>
    cases ends with
    | root cursor => exact ⟨1, by omega, .nowhere⟩
    | nest around here split =>
      refine ⟨_, ?_, .within (around.move _)⟩
      simp only [Frame.next, List.length_append, List.length_cons]
      omega

/-- A sequence that is opened where there is no loop is not the body of one. -/
theorem IsPath.isLoop_eq_false {position : Position} (path : position.IsPath p)
    (noLoop : ∀ body line, .loop body line ∉ p.all) (stands : position = frame :: outer) :
    frame.isLoop = false := by
  have absent : ∀ t ∈ allOf p.body, ∀ body line, t ≠ .loop body line := by
    intro t inside body line same
    exact noLoop body line (same ▸ inside)
  have everywhere := Statement.Everywhere.sequence.1 absent
  cases path with
  | root cursor inside =>
    cases stands
    rfl
  | nest path encloses inside =>
    cases stands
    obtain ⟨s, here, opens⟩ := encloses
    exact opens.isLoop_eq_false (path.everywhere everywhere rfl s (Frame.mem_of_current? here))

end Position

namespace Engine

variable {source : String} {p : Program} {engine next : Engine} {n : Nat}

theorem Left.pos (left : engine.Left p n) : 0 < n := by
  cases left with
  | standing free left => exact left.pos
  | jumping => omega
  | lost => omega

theorem Left.of_free (left : engine.Left p n) (free : engine.jump? = none) :
    engine.position.Left p n := by
  cases left with
  | standing _ left => exact left
  | jumping pending => cases free.symm.trans pending
  | lost pending => cases free.symm.trans pending

/-- A `goto` that was executed leads to where less is left than in front of it, also when the
jump itself is counted. -/
theorem Left.jump {frame : Frame} {outer : Position} {s : Statement} {world after : World}
    {name : String} {line : Nat} (parsed : Program.ofSource source = .ok p)
    (forward : p.ForwardOnly) (distinct : p.labelNames.Nodup)
    (left : Position.Left p (frame :: outer) n) (here : frame.current? = some s)
    (executed : s.execute world = .ok (.jump name line) after)
    (known : next.labels.markers = p.markers) (pending : next.jump? = some ⟨name, line⟩) :
    ∃ m < n, next.Left p m := by
  cases left with
  | @within _ _ rest ends =>
    obtain ⟨front, behind, split⟩ := (s.execution world).spans_of_jump executed
    obtain ⟨before, text⟩ := ends.exists_front rfl
    have size := congrArg List.length split
    simp only [List.length_append, List.length_cons, List.length_nil] at size
    rw [Frame.brackets_of_current? here, List.length_append]
    cases found : next.labels.find? name with
    | none => exact ⟨1, by omega, .lost pending found⟩
    | some marker =>
      have member : marker ∈ p.markers := known ▸ List.mem_of_find?_eq_some found
      obtain rfl : marker.name = name := by simpa using List.find?_some found
      obtain ⟨_, path, target, first, label⟩ := Program.mark_of_mem_markers parsed member
      obtain ⟨around, stands⟩ := List.head?_eq_some_iff.1 first
      obtain ⟨beyond, targetEnds⟩ := path.endsBefore
      obtain ⟨ahead, labelled⟩ := targetEnds.exists_front stands
      have targetLeft : marker.position.Left p (target.brackets.length + beyond.length + 2) := by
        rw [stands] at targetEnds ⊢
        exact .within targetEnds
      refine ⟨_, ?_, .jumping pending found targetLeft⟩
      -- Both frames stand in the same text, so what is left behind them can be compared.
      have jumpText : p.brackets = before ++ front ++ .opens (.goto marker.name line) :: .closes ::
          (behind ++ (frame.next.brackets ++ rest)) := by
        rw [text, Frame.brackets_of_current? here, split]
        simp only [List.append_assoc, List.cons_append, List.nil_append]
      have labelText : p.brackets = ahead ++ .opens (.label marker.name marker.line) :: .closes ::
          (target.next.brackets ++ beyond) := by
        rw [labelled, Frame.brackets_of_current? label]
        rfl
      have forwards := forward.length_le distinct jumpText labelText
      rw [Frame.brackets_of_current? label]
      simp only [Statement.brackets, List.length_append, List.length_cons, List.length_nil]
        at forwards ⊢
      omega

/-- Each step that goes on leaves less than before. -/
theorem Left.step (parsed : Program.ofSource source = .ok p) (forward : p.ForwardOnly)
    (distinct : p.labelNames.Nodup) (sound : engine.OnPath p) (left : engine.Left p n)
    (goesOn : engine.step = .ok true next) : ∃ m < n, next.Left p m := by
  have move := engine.step_move
  rw [goesOn] at move
  cases move with
  | land jump marker pending found =>
    cases left with
    | standing free left => cases free.symm.trans pending
    | @jumping other target n waits leads left =>
      obtain rfl : jump = other := Option.some.inj (pending.symm.trans waits)
      obtain rfl : marker = target := Option.some.inj (found.symm.trans leads)
      exact ⟨n, n.lt_succ_self, .standing rfl left⟩
    | lost waits missing =>
      obtain rfl := Option.some.inj (pending.symm.trans waits)
      cases found.symm.trans missing
  | restart frame outer free stands atEnd isLoop =>
    -- Only here would the text that is left grow without a jump.
    have path := sound.isPath stands
    cases isLoop.symm.trans (path.isLoop_eq_false forward.noLoop rfl)
  | close frame outer free stands atEnd isBlock =>
    have standing := left.of_free free
    rw [stands] at standing
    obtain ⟨m, less, left⟩ := standing.close atEnd
    exact ⟨m, less, .standing free left⟩
  | execute frame outer s flow world free stands here executed =>
    have standing := left.of_free free
    rw [stands] at standing
    cases flow with
    | next =>
      obtain ⟨m, less, left⟩ := standing.next here
      have some := List.length_pos_iff.2 s.brackets_ne_nil
      refine ⟨m, by omega, .standing free ?_⟩
      simpa only [follow, stands, advance] using left
    | enter inner =>
      obtain ⟨opens, start⟩ := (s.execution engine.world).opens executed
      obtain ⟨m, less, left⟩ := standing.enter here opens
      refine ⟨m, less, .standing free ?_⟩
      simpa only [follow, stands, ← start] using left
    | jump name line =>
      exact Left.jump parsed forward distinct standing here executed sound.labels rfl

/-- A run with no more steps left than it may take ends. -/
theorem Left.runFor (parsed : Program.ofSource source = .ok p) (forward : p.ForwardOnly)
    (distinct : p.labelNames.Nodup) (sound : engine.OnPath p) (left : engine.Left p n) {steps : Nat}
    (enough : n ≤ steps) : ∃ outcome, engine.runFor steps = .ended outcome := by
  induction steps generalizing engine n with
  | zero =>
    have some := left.pos
    omega
  | succ steps ih =>
    cases goesOn : engine.step with
    | error e last => exact ⟨_, by rw [Engine.runFor, goesOn]⟩
    | ok goes next =>
      cases goes with
      | false => exact ⟨_, by rw [Engine.runFor, goesOn]⟩
      | true =>
        obtain ⟨m, less, left⟩ := left.step parsed forward distinct sound goesOn
        have kept : next.OnPath p := by
          simpa only [goesOn, Outcome.engine] using sound.move engine.step_move
        obtain ⟨outcome, ended⟩ := ih kept left (by omega)
        exact ⟨outcome, by simpa only [Engine.runFor, goesOn] using ended⟩

theorem initial_left (p : Program) (input : List UInt8) (output : Sink) (prompts : Bool)
    (memory : Nat → Bool) :
    (initial p input output prompts memory).Left p (2 * p.all.length + 2) := by
  have left : Position.Left p [p.root] (2 * p.all.length + 2) := by
    rw [← p.length_brackets]
    exact .within (.root 0)
  exact .standing rfl left

/-- A program without loops whose jumps all go forward ends on every input, with every output,
after no more than two steps for each statement and two for the end. -/
theorem forward_run_ends (source : String) (p : Program)
    (parsed : Program.ofSource source = .ok p) (forward : p.ForwardOnly) (input : List UInt8)
    (output : Sink) (prompts : Bool) (memory : Nat → Bool) (first : Engine)
    (started : start p input output prompts memory = .ok first) :
    ∃ steps ≤ 2 * p.all.length + 2, ∃ outcome, first.runFor steps = .ended outcome := by
  have distinct := distinct_of_start started
  obtain rfl := eq_initial_of_start started
  have left := initial_left p input output prompts memory
  have sound := initial_onPath p input output prompts memory
  exact ⟨_, Nat.le_refl _, left.runFor parsed forward distinct sound (Nat.le_refl _)⟩

theorem forward_run_ends_behind_jump :
    ∃ p first, Program.ofSource "begin if 1 then goto a; begin write 1; a: write 2 end end" =
          .ok p ∧
      p.ForwardOnly ∧ p.all.length = 6 ∧
      start p [] .unlimited false (fun _ => true) = .ok first ∧
      ∃ steps ≤ 14, ∃ outcome, first.runFor steps = .ended outcome := by
  let p : Program := ⟨[.ifThen (.integer 1 1) (.goto "a" 1) 1,
    .block [.write [.expr (.integer 1 1)] 1, .label "a" 1, .write [.expr (.integer 2 1)] 1] 1], 1⟩
  have parsed : Program.ofSource "begin if 1 then goto a; begin write 1; a: write 2 end end" =
      .ok p := by
    with_unfolding_all rfl
  have all : p.all = [.ifThen (.integer 1 1) (.goto "a" 1) 1, .goto "a" 1,
    .block [.write [.expr (.integer 1 1)] 1, .label "a" 1, .write [.expr (.integer 2 1)] 1] 1,
    .write [.expr (.integer 1 1)] 1, .label "a" 1, .write [.expr (.integer 2 1)] 1] := rfl
  have forward : p.ForwardOnly := by
    constructor
    · simp [all]
    · intro before after name line split
      rw [all] at split
      rcases before with _ | ⟨_, _ | ⟨_, before⟩⟩
      · simp at split
      · obtain ⟨_, ⟨rfl, _⟩, rfl⟩ := by simpa using split
        exact Or.inr ⟨1, by simp⟩
      · simp [List.cons_eq_append_iff] at split
  let first := initial p [] .unlimited false (fun _ => true)
  have started : start p [] .unlimited false (fun _ => true) = .ok first := rfl
  have ends := forward_run_ends _ p parsed forward [] .unlimited false (fun _ => true) first started
  exact ⟨p, first, parsed, forward, rfl, started, ends⟩

end Engine

end GotoLang
