import GotoLang.Proofs.Coupling
import GotoLang.Proofs.ReadAttempt
import GotoLang.Proofs.TextRun

set_option autoImplicit false

namespace GotoLang

/-- The bytes are whole lines: none at all, or the last one ends a line. -/
def WholeLines (input : List UInt8) : Prop :=
  input = [] ∨ input.getLast? = some 10

def World.feed (world : World) (more : List UInt8) : World :=
  { world with input := world.input ++ more }

def Engine.feed (engine : Engine) (more : List UInt8) : Engine :=
  { engine with world := engine.world.feed more }

def Report.feed (report : Report) (more : List UInt8) : Report :=
  { report with input := report.input ++ more }

theorem WholeLines.tail {byte : UInt8} {input : List UInt8} (whole : WholeLines (byte :: input)) :
    WholeLines input := by
  cases input with
  | nil => exact Or.inl rfl
  | cons next input =>
    rcases whole with none | last
    · cases none
    · right
      rwa [List.getLast?_cons_cons] at last

theorem WholeLines.ne_nil {byte : UInt8} {input : List UInt8} (whole : WholeLines (byte :: input))
    (inside : byte ≠ 10) : input ≠ [] := by
  intro last
  subst last
  rcases whole with none | newline
  · cases none
  · exact inside (Option.some.inj newline)

theorem WholeLines.behind {input : List UInt8} (whole : WholeLines input) :
    WholeLines (splitLine input).2 := by
  induction input with
  | nil => exact whole
  | cons byte input ih =>
    by_cases newline : byte = 10
    · simp only [splitLine, if_pos newline]
      exact whole.tail
    · simp only [splitLine, if_neg newline]
      exact ih whole.tail

/-- The first of whole lines is the first line, whatever follows. -/
theorem WholeLines.splitLine_append {input : List UInt8} (whole : WholeLines input)
    (filled : input ≠ []) (more : List UInt8) :
    splitLine (input ++ more) = ((splitLine input).1, (splitLine input).2 ++ more) := by
  induction input with
  | nil => exact absurd rfl filled
  | cons byte input ih =>
    by_cases newline : byte = 10
    · simp only [List.cons_append, splitLine, if_pos newline]
    · simp only [List.cons_append, splitLine, if_neg newline,
        ih whole.tail (whole.ne_nil newline)]

/-- Whole lines beside the same lines with more input behind them. The runs part when the first one
lacks a line. -/
def fed (more : List UInt8) : Coupling where
  worlds world twin := WholeLines world.input ∧ twin = world.feed more
  errors := Eq
  parts := RuntimeError.Exhausts

namespace Action

variable {α : Type} {more : List UInt8}

/-- An action that leaves the input alone and does not look at it keeps step. -/
theorem fed_of_blind {action : Action α}
    (keeps : ∀ world, (stateAfter (action world)).input = world.input)
    (blind : ∀ world, action (world.feed more) = mapState (·.feed more) (action world)) :
    (fed more).Actions Eq action action := by
  intro world twin related
  obtain ⟨whole, rfl⟩ := related
  have same := keeps world
  rw [blind]
  generalize action world = result at same ⊢
  rw [← same] at whole
  cases result with
  | ok a after => exact .ok rfl ⟨whole, rfl⟩
  | error e after => exact .error rfl ⟨whole, rfl⟩

theorem fed_evaluate (e : Expr) : (fed more).Actions Eq (evaluate e) (evaluate e) := by
  refine .look (fun _ => rfl) fun world twin related => ?_
  rw [related.2, World.feed]

theorem fed_vector (type : ElementType) (length : Value) (line : Nat) :
    (fed more).Actions Eq (vector type length line) (vector type length line) := by
  refine .look (fun _ => rfl) fun world twin related => ?_
  rw [related.2, World.feed]

theorem fed_store (target : Target) (value : Value) :
    (fed more).Actions Eq (store target value) (store target value) := by
  apply fed_of_blind
  · intro world
    rw [store_apply]
    cases world.environment.store target value <;> rfl
  · intro world
    simp only [store_apply, World.feed]
    cases world.environment.store target value <;> rfl

theorem fed_emit (line : Nat) (text : String) :
    (fed more).Actions Eq (emit line text) (emit line text) := by
  apply fed_of_blind
  · intro world
    rw [emit_apply]
    split <;> rfl
  · intro world
    simp only [emit_apply, World.feed]
    split <;> rfl

theorem fed_flush (line : Nat) : (fed more).Actions Eq (flush line) (flush line) := by
  apply fed_of_blind
  · intro world
    rw [flush_apply]
    split <;> rfl
  · intro world
    simp only [flush_apply, World.feed]
    split <;> rfl

theorem fed_prompt (line : Nat) (name : String) :
    (fed more).Actions Eq (prompt line name) (prompt line name) := by
  have asks : (fed more).Actions Eq
      (do emit line (promptOf true name); flush line : Action Unit)
      (do emit line (promptOf true name); flush line : Action Unit) :=
    .bind (fed_emit line _) fun _ _ _ => fed_flush line
  intro world twin related
  rw [prompt_apply, prompt_apply]
  have both := asks world twin related
  obtain ⟨whole, rfl⟩ := related
  by_cases prompts : world.prompts = true
  · rw [if_pos prompts, if_pos (show (world.feed more).prompts = true from prompts)]
    exact both
  · rw [if_neg prompts, if_neg (show ¬ (world.feed more).prompts = true from prompts)]
    exact .ok rfl ⟨whole, rfl⟩

theorem fed_nextLine (line : Nat) (name : String) :
    (fed more).Actions Eq (nextLine line name) (nextLine line name) := by
  intro world twin related
  obtain ⟨whole, rfl⟩ := related
  by_cases empty : world.input = []
  · -- The first run lacks a line, where the second one may find one behind it.
    have noText : String.fromUTF8? ([] : List UInt8).toByteArray = some "" := rfl
    simp only [nextLine_apply, empty, splitLine, noText, if_true]
    exact .parted ⟨name, rfl⟩
  · have split := whole.splitLine_append empty more
    simp only [nextLine_apply, World.feed, split]
    cases String.fromUTF8? (splitLine world.input).1.toByteArray with
    | none => exact .error rfl ⟨whole.behind, rfl⟩
    | some text =>
      have filled : (splitLine world.input).1 ≠ [] :=
        fun none => empty (splitLine_eq_nil_iff.1 none)
      simp only [if_neg filled]
      exact .ok rfl ⟨whole.behind, rfl⟩

theorem fed_readTarget (line : Nat) (target : Target) :
    (fed more).Actions Eq (readTarget line target) (readTarget line target) := by
  apply Coupling.Actions.bind (fed_prompt line target.name)
  intro _ _ _
  apply Coupling.Actions.bind (fed_nextLine line target.name)
  intro text _ same
  exact same ▸ fed_store target (.ofLine text)

end Action

theorem fed_kept (more : List UInt8) : (fed more).Kept where
  error _ := rfl
  evaluate := Action.fed_evaluate
  vector := Action.fed_vector
  declare _ _ := Action.fed_of_blind (fun _ => rfl) fun _ => rfl
  store := Action.fed_store
  emit := Action.fed_emit
  flush := Action.fed_flush
  readTarget := Action.fed_readTarget

/-- Engines that keep step do so with the same input behind that of the one. -/
theorem eq_feed_of_fed {more : List UInt8} {one other : Engine}
    (related : (fed more).Engines one other) : other = one.feed more := by
  obtain ⟨twin, ⟨_, rfl⟩, rfl⟩ := related
  rfl

theorem Engine.runFor_feed {engine : Engine} (whole : WholeLines engine.world.input)
    (more : List UInt8) {n : Nat} {outcome : Outcome Unit}
    (ended : engine.runFor n = .ended outcome) (enough : ¬ Exhausted outcome) :
    (engine.feed more).runFor n = .ended (mapState (·.feed more) outcome) := by
  have both : (fed more).Progresses (engine.runFor n) ((engine.feed more).runFor n) :=
    (fed_kept more).runFor ⟨engine.world.feed more, ⟨whole, rfl⟩, rfl⟩ n
  rw [ended] at both
  generalize (engine.feed more).runFor n = progress at both ⊢
  cases both with
  | parted lacks => exact absurd (exhausted_error_iff.2 lacks) enough
  | ended results =>
    cases results with
    | ok same after => rw [eq_feed_of_fed after]; rfl
    | error same after => rw [eq_feed_of_fed after, ← same]; rfl
    | parted lacks => exact absurd (exhausted_error_iff.2 lacks) enough

theorem Engine.start_feed (p : Program) (input more : List UInt8) (output : Sink) (prompts : Bool)
    (memory : Nat → Bool) :
    start p (input ++ more) output prompts memory =
      (start p input output prompts memory).map (·.feed more) := by
  rw [start_eq, start_eq]
  cases Labels.ofProgram p <;> rfl

theorem runText_feed {source : String} {input : List UInt8} {output : Sink} {prompts : Bool}
    {memory : Nat → Bool} {steps : Nat} {result : Except Failure Unit} (whole : WholeLines input)
    (more : List UInt8)
    (ended : (runText source input output prompts memory steps).result? = some result)
    (enough : ∀ e, result = .error (.runtime e) → ¬ e.Exhausts) :
    runText source (input ++ more) output prompts memory steps =
      (runText source input output prompts memory steps).feed more := by
  cases parsed : Program.ofSource source with
  | error e =>
    simp only [runText, parsed]
    rfl
  | ok p =>
    have starts := Engine.start_feed p input more output prompts memory
    cases started : Engine.start p input output prompts memory with
    | error e =>
      rw [started] at starts
      simp only [runText, parsed, started, starts]
      rfl
    | ok first =>
      rw [started] at starts
      rw [runText_of_started parsed started] at ended ⊢
      rw [runText_of_started parsed starts]
      have begins : WholeLines first.world.input := by
        rw [Engine.eq_initial_of_start started]
        exact whole
      cases ran : first.runFor steps with
      | running engine =>
        rw [ran] at ended
        cases ended
      | ended outcome =>
        rw [ran] at ended
        cases outcome with
        | ok _ last =>
          rw [Engine.runFor_feed begins more ran (not_exhausted_ok _ _)]
          rfl
        | error e last =>
          have present := enough e (Option.some.inj ended).symm
          rw [Engine.runFor_feed begins more ran (mt exhausted_error_iff.1 present)]
          rfl

/-- What a program does not read of its input, it does not look at. A run on whole lines that does
not lack a line ends in the same way if there is more input, which is left unread. If its output
never fails, each attempt to fill a target takes one line, in turn, and the run ends for lack of
input exactly if there are more attempts than lines. -/
theorem unread_input_unseen (source : String) (prompts : Bool) (memory : Nat → Bool) (output : Sink)
    (input more : List UInt8) (whole : WholeLines input) :
    (∀ steps result, (runText source input output prompts memory steps).result? = some result →
      (∀ e, result = .error (.runtime e) → ¬ e.Exhausts) →
      runText source (input ++ more) output prompts memory steps =
        (runText source input output prompts memory steps).feed more) ∧
    ∀ p first, Program.ofSource source = .ok p →
      Engine.start p input output prompts memory = .ok first →
      Engine.start p (input ++ more) output prompts memory = .ok (first.feed more) ∧
      (∀ steps outcome, first.runFor steps = .ended outcome → ¬ Exhausted outcome →
        (first.feed more).runFor steps = .ended (mapState (·.feed more) outcome)) ∧
      (output.limit = none → (∀ size, output.failFlush size = false) → ∀ steps,
        (∀ i (inside : i < (first.attempts steps).length),
          (first.attempts steps)[i].world.input = ((linesOf input).drop i).flatten ∧
          (stateAfter (first.attempts steps)[i].result).input =
            ((linesOf input).drop (i + 1)).flatten) ∧
        (first.runFor steps).engine.world.input =
          ((linesOf input).drop (first.attempts steps).length).flatten ∧
        ((first.runFor steps).Exhausted ↔
          (linesOf input).length < (first.attempts steps).length)) := by
  refine ⟨?_, ?_⟩
  · intro steps result ended enough
    exact runText_feed whole more ended enough
  · intro p first _ started
    have begins : first.world.input = input ∧ first.world.output = output := by
      rw [Engine.eq_initial_of_start started]
      exact ⟨rfl, rfl⟩
    refine ⟨?_, ?_, ?_⟩
    · rw [Engine.start_feed, started]
      rfl
    · intro steps outcome ended enough
      rw [← begins.1] at whole
      exact Engine.runFor_feed whole more ended enough
    · intro unlimited flushes steps
      have unfailing : first.world.Unfailing := by
        rw [World.Unfailing, begins.2]
        exact ⟨unlimited, flushes⟩
      obtain ⟨consumes, lacks⟩ := Engine.runFor_draws unfailing steps
      rw [begins.1] at consumes
      exact ⟨consumes.getElem, consumes.last_eq, lacks.trans consumes.exists_nil_iff⟩

/-- The two lines `5` and `0` are read, and `7` behind them is left. -/
theorem unread_input_unseen_behind_jump :
    ∃ p first other, Program.ofSource "begin n: integer; a: read n; if n then goto a end" = .ok p ∧
      Engine.start p [53, 10, 48, 10] .unlimited true (fun _ => true) = .ok first ∧
      Engine.start p [53, 10, 48, 10, 55] .unlimited true (fun _ => true) = .ok other ∧
      (first.attempts 12).length = 2 ∧ ¬ (first.runFor 12).Exhausted ∧
      ∃ last, other.runFor 12 = .ended (.ok () last) ∧ last.world.input = [55] := by
  let p : Program := ⟨[.declare ["n"] none .integer 1, .label "a" 1,
    .read [⟨"n", none, 1⟩] 1, .ifThen (.var "n" 1) (.goto "a" 1) 1], 1⟩
  have parsed : Program.ofSource "begin n: integer; a: read n; if n then goto a end" = .ok p := by
    with_unfolding_all rfl
  let first := Engine.initial p [53, 10, 48, 10] .unlimited true (fun _ => true)
  have started : Engine.start p [53, 10, 48, 10] .unlimited true (fun _ => true) = .ok first := rfl
  have attempts : (first.attempts 12).length = 2 := by decide +kernel
  have ends : (first.runFor 12).stage.result? = some (.ok ()) := by decide +kernel
  obtain ⟨_, runs⟩ :=
    unread_input_unseen _ true (fun _ => true) .unlimited [53, 10, 48, 10] [55] (Or.inr rfl)
  obtain ⟨starts, goesOn, reads⟩ := runs p first parsed started
  obtain ⟨_, left, lacks⟩ := reads rfl (fun _ => rfl) 12
  rw [attempts] at left lacks
  refine ⟨p, first, _, parsed, started, starts, attempts, ?_, ?_⟩
  · rw [lacks]
    decide
  · cases ran : first.runFor 12 with
    | running engine =>
      rw [ran] at ends
      cases ends
    | ended outcome =>
      cases outcome with
      | ok _ last =>
        refine ⟨_, goesOn 12 _ ran (not_exhausted_ok _ _), ?_⟩
        rw [ran] at left
        have none : last.world.input = [] := left
        show last.world.input ++ [55] = [55]
        rw [none, List.nil_append]
      | error e last =>
        rw [ran] at ends
        cases ends

end GotoLang
