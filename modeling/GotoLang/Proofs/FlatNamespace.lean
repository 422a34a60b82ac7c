import GotoLang.Proofs.ActionInvariant
import GotoLang.Proofs.EnginePath

set_option autoImplicit false

namespace GotoLang

def Statement.declaredNames : Statement → List String
  | declare names _ _ _ => names
  | _ => []

def Statement.targets : Statement → List Target
  | assign target _ => [target]
  | read targets _ => targets
  | _ => []

def RuntimeFault.missing? : RuntimeFault → Option String
  | unknownVariable name => some name
  | _ => none

namespace Environment

/-- The variable that the fault misses, if it misses one, is not declared. -/
def Lacks (env : Environment) (fault : RuntimeFault) : Prop :=
  ∀ name, fault.missing? = some name → env.isDeclared name = false

variable {env : Environment} {name other : String} {value : Value} {fault : RuntimeFault}

theorem isDeclared_empty (name : String) : empty.isDeclared name = false := rfl

theorem isDeclared_eq_false_iff : env.isDeclared name = false ↔ env.find? name = none :=
  Option.isSome_eq_false_iff.trans Option.isNone_iff_eq_none

theorem isDeclared_declare :
    (env.declare name value).isDeclared other = true ↔
      other = name ∨ env.isDeclared other = true := by
  unfold isDeclared
  rw [find?_declare]
  by_cases same : other = name <;> simp [same]

/-- What is not declared stays so where another variable is. -/
theorem isDeclared_declare_of_ne (absent : env.isDeclared other = false) (apart : other ≠ name) :
    (env.declare name value).isDeclared other = false := by
  rw [isDeclared_eq_false_iff] at absent ⊢
  rw [find?_declare, if_neg apart, absent]

theorem lacks_of_isOperation (operation : fault.IsOperation) : env.Lacks fault := by
  intro name missed
  cases fault with
  | unknownVariable => cases operation
  | _ => cases missed

theorem get_lacks (env : Environment) (name : String) :
    Yields (fun _ => env.isDeclared name = true) env.Lacks (env.get name) := by
  unfold get
  cases found : env.find? name with
  | some value => exact Option.isSome_iff_exists.2 ⟨value, found⟩
  | none =>
    intro missed same
    cases same
    exact isDeclared_eq_false_iff.2 found

theorem elements_lacks (env : Environment) (name : String) :
    Yields (fun _ => env.isDeclared name = true) env.Lacks (env.elements name) := by
  apply Yields.bind (env.get_lacks name)
  intro value declared
  cases value with
  | vector elements => exact declared
  | integer | real | text | boolean => exact fun _ same => by cases same

theorem position_lacks (env : Environment) (name : String) (length : Nat) (index : Value) :
    Yields (fun _ => True) env.Lacks (position name length index) := by
  apply Yields.bind
    (index.operates_toInteger.mono (fun _ same => same) fun _ => lacks_of_isOperation)
  intro place _
  split
  · exact trivial
  · exact fun _ same => by cases same

theorem element_lacks (env : Environment) (name : String) (index : Value) :
    Yields (fun _ => True) env.Lacks (env.element name index) := by
  apply Yields.bind (env.elements_lacks name)
  intro elements _
  exact (env.position_lacks name elements.length index).bind fun _ _ => trivial

/-- Only a declared variable is given another value. -/
abbrev Replaces (env : Environment) (name : String) (next : Environment) : Prop :=
  env.isDeclared name = true ∧ ∃ value, next = env.declare name value

theorem assign_lacks (env : Environment) (name : String) (value : Value) :
    Yields (env.Replaces name) env.Lacks (env.assign name value) := by
  unfold assign
  by_cases declared : env.isDeclared name = true
  · rw [if_pos declared]
    exact ⟨declared, value, rfl⟩
  · rw [if_neg declared]
    intro missed same
    cases same
    exact Bool.eq_false_iff.2 declared

theorem assignElement_lacks (env : Environment) (name : String) (index value : Value) :
    Yields (env.Replaces name) env.Lacks (env.assignElement name index value) := by
  apply Yields.bind (env.elements_lacks name)
  intro elements declared
  apply Yields.bind (env.position_lacks name elements.length index)
  intro place _
  exact ⟨declared, _, rfl⟩

end Environment

/-- An expression misses no variable that is declared. -/
theorem Expr.eval_lacks (env : Environment) (e : Expr) :
    Yields (fun _ => True) (fun e => env.Lacks e.fault) (e.eval env) := by
  induction e with
  | integer | real => exact trivial
  | var name line =>
    exact ((env.get_lacks name).onLine line).mono (fun _ _ => trivial) fun _ lacks => lacks
  | element name index line ih =>
    apply Yields.bind ih
    intro place _
    exact (env.element_lacks name place).onLine line
  | negate operand line ih =>
    apply Yields.bind ih
    intro value _
    exact (value.operates_negate.onLine line).mono (fun _ same => same)
      fun _ => Environment.lacks_of_isOperation
  | binary op left right line ihLeft ihRight =>
    apply Yields.bind ihLeft
    intro a _
    apply Yields.bind ihRight
    intro b _
    exact ((op.operates_apply a b).onLine line).mono (fun _ same => same)
      fun _ => Environment.lacks_of_isOperation

theorem Environment.store_lacks (env : Environment) (target : Target) (value : Value) :
    Yields (env.Replaces target.name) (fun e => env.Lacks e.fault) (env.store target value) := by
  unfold store
  split
  · exact (env.assign_lacks target.name value).onLine target.line
  · rename_i index _
    apply Yields.bind (index.eval_lacks env)
    intro place _
    exact (env.assignElement_lacks target.name place value).onLine target.line

namespace Statement

variable {s t : Statement} {env : Environment} {name : String}

theorem execute_of_chosen {world : World} (found : s.chosen world.environment = .ok (some t)) :
    s.execute world = t.execute world := by
  rw [execute_eq_chosen, found]

theorem mem_all_of_chosen (found : s.chosen env = .ok (some t)) : t ∈ s.all := by
  induction s with
  | ifThen condition branch line ih =>
    rw [chosen_ifThen] at found
    split at found
    · split at found
      · exact List.mem_cons_of_mem _ (ih found)
      · cases found
    · cases found
  | ifThenElse condition branch other line ihBranch ihOther =>
    rw [chosen_ifThenElse] at found
    split at found
    · split at found
      · exact List.mem_cons_of_mem _ (List.mem_append_left _ (ihBranch found))
      · exact List.mem_cons_of_mem _ (List.mem_append_right _ (ihOther found))
    · cases found
  | block | loop | declare | assign | read | write | goto | label | empty =>
    cases found
    exact List.mem_cons_self

/-- A condition that has no value misses no variable that is declared. -/
theorem chosen_lacks (env : Environment) (s : Statement) :
    Yields (fun _ => True) (fun e => env.Lacks e.fault) (s.chosen env) := by
  induction s with
  | ifThen condition branch line ih =>
    apply Yields.bind (condition.eval_lacks env)
    intro value _
    by_cases holds : value.holds = true
    · simpa only [if_pos holds] using ih
    · simp only [if_neg holds]
      exact trivial
  | ifThenElse condition branch other line ihBranch ihOther =>
    apply Yields.bind (condition.eval_lacks env)
    intro value _
    by_cases holds : value.holds = true
    · simpa only [if_pos holds] using ihBranch
    · simpa only [if_neg holds] using ihOther
  | block | loop | declare | assign | read | write | goto | label | empty => exact trivial

end Statement

section Effects

variable {good : Environment → Prop} {faults : RuntimeFault → Prop}
  (fails : ∀ env fault, good env → env.Lacks fault → faults fault)
  (others : ∀ fault, fault.missing? = none → faults fault)

/-- Whatever holds of the variables still does afterwards, and the faults are these. -/
abbrev Action.KeepsVariables {α : Type} (good : Environment → Prop) (faults : RuntimeFault → Prop)
    (action : Action α) : Prop :=
  action.Keeps (fun world => good world.environment) (fun _ => True) fun e => faults e.fault

namespace Action.KeepsVariables

include fails

theorem evaluate (e : Expr) : (evaluate e).KeepsVariables good faults :=
  Keeps.evaluate fun world before => (e.eval_lacks world.environment).mono
    (fun _ same => same) fun _ => fails _ _ before

theorem store {target : Target}
    (stores : ∀ env next, good env → env.Replaces target.name next → good next) (value : Value) :
    (store target value).KeepsVariables good faults :=
  Keeps.store fun world before => (world.environment.store_lacks target value).mono
    (fun next => stores _ next before) fun _ => fails _ _ before

include others

theorem initial (size : Option Expr) (type : ElementType) (line : Nat) :
    (initial size type line).KeepsVariables good faults := by
  cases size with
  | none => exact .pure trivial
  | some size =>
    apply Keeps.bind (evaluate fails size)
    intro length _
    refine .vector fun memory =>
      ((type.vector_yields memory length).onLine line).mono (fun _ same => same) ?_
    rintro ⟨_, _⟩ ⟨size, rfl⟩
    exact others _ rfl

theorem readTarget {target : Target}
    (stores : ∀ env next, good env → env.Replaces target.name next → good next) (line : Nat) :
    (readTarget line target).KeepsVariables good faults := by
  have console (fault : ConsoleFault) : faults (.console fault) := others _ rfl
  have unseen (world : World) (output : Sink) (before : good world.environment) :
      good ({ world with output } : World).environment := before
  apply Keeps.bind (.prompt unseen (console _) (console _) target.name)
  intro _ _
  apply Keeps.bind (.nextLine (fun _ _ before => before) (console _) (others _ rfl))
  intro text _
  exact store fails stores _

theorem writeItem (line : Nat) (item : WriteItem) :
    (writeItem line item).KeepsVariables good faults := by
  apply Keeps.writeItem (fun _ _ before => before) (others _ rfl)
  intro e _ world before
  exact (e.eval_lacks world.environment).mono (fun _ same => same) fun _ => fails _ _ before

end Action.KeepsVariables

include fails others

/-- What holds of the variables, and is kept by declaring the names of a statement and by giving a
variable of its targets another value, is kept by its effect. If that fails, it misses no variable
that was declared then. -/
theorem Effect.keepsVariables {t : Statement} {effect : Effect} (acts : t.effect? = some effect)
    (declares : ∀ name ∈ t.declaredNames, ∀ env value, good env → good (env.declare name value))
    (stores : ∀ target ∈ t.targets, ∀ env next, good env → env.Replaces target.name next →
      good next) :
    effect.run.KeepsVariables good faults := by
  cases t with
  | declare names size type line =>
    cases acts
    apply Action.Keeps.bind (Action.KeepsVariables.initial fails others size type line)
    intro value _
    exact .forM fun name member world before => ⟨trivial, declares name member _ value before⟩
  | assign target e =>
    cases acts
    apply Action.Keeps.bind (Action.KeepsVariables.evaluate fails e)
    intro value _
    exact Action.KeepsVariables.store fails (stores target List.mem_cons_self) value
  | read targets line =>
    cases acts
    exact Action.Keeps.forM fun target member =>
      Action.KeepsVariables.readTarget fails others (stores target member) line
  | write items line =>
    cases acts
    apply Action.Keeps.bind
    · exact .forM fun item _ => Action.KeepsVariables.writeItem fails others line item
    intro _ _
    exact .emit (fun _ _ before => before) (others _ rfl) "\n"
  | block | loop | ifThen | ifThenElse | goto | label | empty => cases acts

/-- The same holds of a statement that is executed in the place of another one, since it has an
effect or only says where execution goes on. -/
theorem Statement.keepsVariables {s t : Statement} {env : Environment}
    (found : s.chosen env = .ok (some t))
    (declares : ∀ name ∈ t.declaredNames, ∀ env value, good env → good (env.declare name value))
    (stores : ∀ target ∈ t.targets, ∀ env next, good env → env.Replaces target.name next →
      good next) :
    t.execute.KeepsVariables good faults := by
  rcases effect_or_pure_of_chosen found with ⟨effect, acts⟩ | ⟨flow, only⟩
  · rw [execute_of_effect? acts]
    apply Action.Keeps.bind (effect.keepsVariables fails others acts declares stores)
    exact fun _ _ => .pure trivial
  · rw [only]
    exact .pure trivial

end Effects

theorem Action.isDeclared_of_forM_declare {names : List String} {value : Value}
    {world after : World} (ran : names.forM (Action.declare value) world = .ok () after)
    {name : String} (listed : name ∈ names ∨ world.environment.isDeclared name = true) :
    after.environment.isDeclared name = true := by
  induction names generalizing world with
  | nil =>
    cases ran
    exact listed.resolve_left List.not_mem_nil
  | cons first rest ih =>
    obtain ⟨_, between, declared, ran⟩ := bind_eq_ok_iff.1 ran
    cases declared
    apply ih ran
    rcases listed with listed | before
    · rcases List.mem_cons.1 listed with rfl | later
      · exact Or.inr (Environment.isDeclared_declare.2 (Or.inl rfl))
      · exact Or.inl later
    · exact Or.inr (Environment.isDeclared_declare.2 (Or.inr before))

/-- A declaration that is executed declares all its names. -/
theorem Statement.isDeclared_of_declare {names : List String} {size : Option Expr}
    {type : ElementType} {line : Nat} {world after : World} {flow : Flow}
    (ran : (declare names size type line).execute world = .ok flow after) {name : String}
    (listed : name ∈ names) : after.environment.isDeclared name = true := by
  obtain ⟨value, between, _, ran⟩ := Action.bind_eq_ok_iff.1 ran
  obtain ⟨_, last, declared, ran⟩ := Action.bind_eq_ok_iff.1 ran
  cases ran
  exact Action.isDeclared_of_forM_declare declared (Or.inl listed)

/-- A declaration that fails declares none of its names. -/
theorem Statement.eq_of_declare_error {names : List String} {size : Option Expr}
    {type : ElementType} {line : Nat} {world after : World} {e : RuntimeError}
    (failed : (declare names size type line).execute world = .error e after) : after = world := by
  rcases Statement.failure failed with ⟨_, same⟩ | ⟨t, found, left⟩
  · exact same
  · cases found
    exact left

namespace Engine

/-- The statement that the next step executes: the one under the cursor, or the branch in its
place. There is none if a jump is carried out, if a sequence is closed or restarted, or if an `if`
chooses no branch or has a condition without a value. -/
def executed? (engine : Engine) : Option Statement :=
  match engine.jump?, engine.position with
  | none, frame :: _ =>
    match frame.current? with
    | some s =>
      match s.chosen engine.world.environment with
      | .ok chosen => chosen
      | .error _ => none
    | none => none
  | _, _ => none

/-- The next step is a declaration of the name that does not fail. -/
def Declares (engine : Engine) (name : String) : Prop :=
  ∃ names size type line after, engine.executed? = some (.declare names size type line) ∧
    name ∈ names ∧ engine.step = .ok true after

@[simp] theorem follow_world (engine : Engine) (flow : Flow) :
    (engine.follow flow).world = engine.world := by
  cases flow <;> rfl

variable {engine : Engine} {t : Statement} {name : String}

/-- The statement under the cursor is the one that is executed, or it has that one inside it. -/
theorem current_of_executed? (executes : engine.executed? = some t) :
    engine.jump? = none ∧ ∃ frame outer s, engine.position = frame :: outer ∧
      frame.current? = some s ∧ s.chosen engine.world.environment = .ok (some t) := by
  unfold executed? at executes
  split at executes
  · rename_i frame outer free stands
    split at executes
    · rename_i s here
      split at executes
      · rename_i chosen found
        exact ⟨free, frame, outer, s, stands, here, executes ▸ found⟩
      · cases executes
    · cases executes
  · cases executes

/-- A step that carries out a jump, and one at the end of a sequence, execute no statement. -/
theorem executed?_eq_none (moves : engine.jump?.isSome = true ∨
      ∃ frame outer, engine.position = frame :: outer ∧ frame.current? = none) :
    engine.executed? = none := by
  by_contra executes
  obtain ⟨t, executes⟩ := Option.ne_none_iff_exists'.1 executes
  obtain ⟨free, frame, outer, s, stands, here, _⟩ := current_of_executed? executes
  rcases moves with pending | ⟨other, rest, standsAtEnd, atEnd⟩
  · rw [free] at pending
    cases pending
  · cases stands.symm.trans standsAtEnd
    cases here.symm.trans atEnd

/-- A step that executes a statement does what the statement does. -/
theorem step_of_executed? (executes : engine.executed? = some t) :
    ∃ line, engine.step =
      match t.execute engine.world with
      | .ok flow world => .ok true ({ engine with world, line }.follow flow)
      | .error e world => .error e { engine with world, line } := by
  obtain ⟨free, frame, outer, s, stands, here, found⟩ := current_of_executed? executes
  refine ⟨s.line, ?_⟩
  cases executed : t.execute engine.world <;>
    simp only [step, free, stands, here, perform, Statement.execute_of_chosen found, executed]

/-- A step that executes no statement does nothing to the world, and if it fails, it is for a label
that does not exist or in a condition. -/
theorem step_of_not_executed? (executes : engine.executed? = none) :
    engine.step.engine.world = engine.world ∧
      ∀ e after, engine.step = .error e after → engine.world.environment.Lacks e.fault := by
  have move := engine.step_move
  generalize engine.step = outcome at move ⊢
  cases move with
  | land | rest | restart | close => exact ⟨rfl, fun _ _ same => by cases same⟩
  | lose jump pending missing =>
    refine ⟨rfl, fun e after same => ?_⟩
    cases same
    exact fun _ missed => by cases missed
  | execute frame outer s flow world free stands here executed =>
    rw [s.execute_eq_chosen] at executed
    cases found : s.chosen engine.world.environment with
    | ok chosen =>
      simp only [executed?, free, stands, here, found] at executes
      subst executes
      rw [found] at executed
      cases executed
      exact ⟨rfl, fun _ _ same => by cases same⟩
    | error e =>
      rw [found] at executed
      cases executed
  | fail frame outer s e world free stands here failed =>
    rw [s.execute_eq_chosen] at failed
    have lacks := s.chosen_lacks engine.world.environment
    cases found : s.chosen engine.world.environment with
    | ok chosen =>
      simp only [executed?, free, stands, here, found] at executes
      subst executes
      rw [found] at failed
      cases failed
    | error e =>
      rw [found] at failed lacks
      cases failed
      refine ⟨rfl, fun _ _ same => ?_⟩
      cases same
      exact lacks

/-- What holds of the variables, and is kept by declaring the names of the statement that is
executed and by giving a variable of its targets another value, is kept by the step. -/
theorem step_yields_variables (good : Environment → Prop) (faults : RuntimeFault → Prop)
    (before : good engine.world.environment)
    (declares : ∀ t, engine.executed? = some t → ∀ name ∈ t.declaredNames, ∀ env value,
      good env → good (env.declare name value))
    (stores : ∀ t, engine.executed? = some t → ∀ target ∈ t.targets, ∀ env next, good env →
      env.Replaces target.name next → good next)
    (fails : ∀ env fault, good env → env.Lacks fault → faults fault)
    (others : ∀ fault, fault.missing? = none → faults fault) :
    good engine.step.engine.world.environment ∧
      ∀ e after, engine.step = .error e after → faults e.fault := by
  cases executes : engine.executed? with
  | none =>
    obtain ⟨same, lacks⟩ := step_of_not_executed? executes
    rw [same]
    exact ⟨before, fun e after failed => fails _ _ before (lacks e after failed)⟩
  | some t =>
    obtain ⟨_, _, _, _, _, _, found⟩ := current_of_executed? executes
    obtain ⟨line, steps⟩ := step_of_executed? executes
    have kept := Statement.keepsVariables fails others found (declares t executes)
      (stores t executes) engine.world before
    rw [steps]
    generalize t.execute engine.world = result at kept ⊢
    cases result with
    | ok flow world =>
      refine ⟨?_, fun _ _ same => by cases same⟩
      simpa only [Outcome.engine, follow_world] using kept.2
    | error e world =>
      refine ⟨kept.2, fun _ _ same => ?_⟩
      cases same
      exact kept.1

theorem step_keeps_variables (good : Environment → Prop) (before : good engine.world.environment)
    (declares : ∀ t, engine.executed? = some t → ∀ name ∈ t.declaredNames, ∀ env value,
      good env → good (env.declare name value))
    (stores : ∀ t, engine.executed? = some t → ∀ target ∈ t.targets, ∀ env next, good env →
      env.Replaces target.name next → good next) : good engine.step.engine.world.environment :=
  (step_yields_variables good (fun _ => True) before declares stores (fun _ _ _ _ => trivial)
    fun _ _ => trivial).1

/-- A step that executes no statement, or one that names no variables to set, leaves all variables
as they were. -/
theorem step_same_variables
    (sets : ∀ t, engine.executed? = some t → t.declaredNames = [] ∧ t.targets = []) :
    engine.step.engine.world.environment = engine.world.environment := by
  apply step_keeps_variables (· = engine.world.environment) rfl
  · intro t executes name listed
    rw [(sets t executes).1] at listed
    cases listed
  · intro t executes target listed
    rw [(sets t executes).2] at listed
    cases listed

/-- A step leaves the variables as they were that the executed statement does not name. -/
theorem step_find?_eq
    (unnamed : ∀ t, engine.executed? = some t →
      name ∉ t.declaredNames ∧ ∀ target ∈ t.targets, target.name ≠ name) :
    engine.step.engine.world.environment.find? name = engine.world.environment.find? name := by
  apply step_keeps_variables (·.find? name = engine.world.environment.find? name) rfl
  · intro t executes other listed env value same
    have apart : name ≠ other := fun clash => (unnamed t executes).1 (clash ▸ listed)
    rw [Environment.find?_declare, if_neg apart, same]
  · rintro t executes target listed env _ same ⟨_, value, rfl⟩
    rw [Environment.find?_declare, if_neg ((unnamed t executes).2 target listed).symm, same]

/-- What is declared stays declared, and a step that fails misses no variable that is declared. -/
theorem step_grows :
    (∀ name, engine.world.environment.isDeclared name = true →
      engine.step.engine.world.environment.isDeclared name = true) ∧
    ∀ e after, engine.step = .error e after → engine.world.environment.Lacks e.fault := by
  apply step_yields_variables fun env => ∀ name,
    engine.world.environment.isDeclared name = true → env.isDeclared name = true
  · exact fun _ declared => declared
  · exact fun t _ other _ env value grows name declared =>
      Environment.isDeclared_declare.2 (Or.inr (grows name declared))
  · rintro t _ target _ env _ grows ⟨_, value, rfl⟩ name declared
    exact Environment.isDeclared_declare.2 (Or.inr (grows name declared))
  · intro env fault grows lacks name missed
    rw [Bool.eq_false_iff]
    intro declared
    exact Bool.eq_false_iff.1 (lacks name missed) (grows name declared)
  · intro fault none name missed
    cases none.symm.trans missed

/-- A declaration that does not fail declares its names. -/
theorem Declares.isDeclared (declares : engine.Declares name) :
    engine.step.engine.world.environment.isDeclared name = true := by
  obtain ⟨names, size, type, line, after, executes, listed, ran⟩ := declares
  obtain ⟨_, steps⟩ := step_of_executed? executes
  rw [steps] at ran ⊢
  cases executed : (Statement.declare names size type line).execute engine.world with
  | ok flow world =>
    simp only [Outcome.engine, follow_world]
    exact Statement.isDeclared_of_declare executed listed
  | error e world =>
    rw [executed] at ran
    cases ran

/-- A step that executes a statement with the name among its declared ones declares it or changes
nothing. -/
theorem declares_or_same (executes : engine.executed? = some t) (listed : name ∈ t.declaredNames) :
    engine.Declares name ∨ engine.step.engine.world = engine.world := by
  cases t with
  | declare names size type line =>
    obtain ⟨_, steps⟩ := step_of_executed? executes
    cases executed : (Statement.declare names size type line).execute engine.world with
    | ok flow world =>
      rw [executed] at steps
      exact Or.inl ⟨names, size, type, line, _, executes, listed, steps⟩
    | error e world =>
      rw [executed] at steps
      rw [steps]
      exact Or.inr (Statement.eq_of_declare_error executed)
  | block | loop | ifThen | ifThenElse | assign | read | write | goto | label | empty =>
    cases listed

/-- What is declared after a step was declared before it, or the step declares it. -/
theorem isDeclared_step_iff :
    engine.step.engine.world.environment.isDeclared name = true ↔
      engine.world.environment.isDeclared name = true ∨ engine.Declares name := by
  constructor
  · intro declared
    by_cases named : ∃ t, engine.executed? = some t ∧ name ∈ t.declaredNames
    · obtain ⟨t, executes, listed⟩ := named
      rcases declares_or_same executes listed with declares | same
      · exact Or.inr declares
      · exact Or.inl (same ▸ declared)
    · left
      by_contra undeclared
      have stays : engine.step.engine.world.environment.isDeclared name = false := by
        apply step_keeps_variables (·.isDeclared name = false) (Bool.eq_false_iff.2 undeclared)
        · intro t executes other listed env value absent
          apply Environment.isDeclared_declare_of_ne absent
          rintro rfl
          exact named ⟨t, executes, listed⟩
        · -- A target is declared when it is stored into, so it is another variable.
          rintro t executes target listed env _ absent ⟨stored, value, rfl⟩
          apply Environment.isDeclared_declare_of_ne absent
          rintro rfl
          rw [absent] at stored
          cases stored
      rw [stays] at declared
      cases declared
  · rintro (before | declares)
    · exact step_grows.1 name before
    · exact declares.isDeclared

/-- A variable is declared after a number of calls exactly if one of them declared it. -/
theorem isDeclared_afterCalls_iff {first : Engine} (bare : first.world.environment = .empty)
    (calls : Nat) (name : String) :
    (first.afterCalls calls).world.environment.isDeclared name = true ↔
      ∃ before < calls, (first.afterCalls before).Declares name := by
  induction calls with
  | zero =>
    simp only [afterCalls, Function.iterate_zero, id_eq, bare, Environment.isDeclared_empty,
      Bool.false_eq_true, Nat.not_lt_zero, false_and, exists_false]
  | succ calls ih =>
    rw [afterCalls_succ, isDeclared_step_iff, ih]
    constructor
    · rintro (⟨before, less, declares⟩ | declares)
      · exact ⟨before, Nat.lt_succ_of_lt less, declares⟩
      · exact ⟨calls, Nat.lt_succ_self calls, declares⟩
    · rintro ⟨before, less, declares⟩
      rcases Nat.lt_succ_iff_lt_or_eq.1 less with less | rfl
      · exact Or.inl ⟨before, less, declares⟩
      · exact Or.inr declares

/-- The statement that is executed is one of the program. -/
theorem OnPath.mem_all_of_executed? {p : Program} (sound : engine.OnPath p)
    (executes : engine.executed? = some t) : t ∈ p.all := by
  obtain ⟨_, frame, outer, s, stands, here, found⟩ := current_of_executed? executes
  have everywhere : ∀ s ∈ p.body, s.Everywhere (· ∈ p.all) :=
    Statement.Everywhere.sequence.1 fun _ member => member
  have inside := (sound.isPath stands).everywhere everywhere rfl s (Frame.mem_of_current? here)
  exact inside t (Statement.mem_all_of_chosen found)

/-- There is one flat collection of variables, and control flow never touches it. Of the states that
calls of `step` lead to, failed ones included, a later one has all variables of an earlier one, and
each of them is named by a declaration of the program that was completed before. A step executes at
most one statement, and none if it carries out a jump or closes or restarts a frame. A step that
executes none, or one that declares nothing and has no targets, leaves the variables as they were;
this is so for one that enters a frame, for a `goto`, a label, an empty statement and a `write`. Any
other step changes only variables that its statement names. A step fails for a variable that is
unknown only if no declaration of it was completed before. -/
theorem namespace_is_flat (p : Program) (input : List UInt8) (output : Sink) (prompts : Bool)
    (memory : Nat → Bool) (first : Engine)
    (started : start p input output prompts memory = .ok first) :
    (∀ earlier later, earlier ≤ later → ∀ name,
      (first.afterCalls earlier).world.environment.isDeclared name = true →
      (first.afterCalls later).world.environment.isDeclared name = true) ∧
    (∀ calls name, (first.afterCalls calls).world.environment.isDeclared name = true ↔
      ∃ before < calls, (first.afterCalls before).Declares name) ∧
    (∀ calls name, (first.afterCalls calls).world.environment.isDeclared name = true →
      ∃ names size type line, .declare names size type line ∈ p.all ∧ name ∈ names) ∧
    ∀ calls engine, first.afterCalls calls = engine →
      (∀ t, engine.executed? = some t → t ∈ p.all) ∧
      (engine.jump?.isSome = true ∨
          (∃ frame outer, engine.position = frame :: outer ∧ frame.current? = none) →
        engine.executed? = none) ∧
      ((∀ t, engine.executed? = some t → t.declaredNames = [] ∧ t.targets = []) →
        engine.step.engine.world.environment = engine.world.environment) ∧
      (∀ name, engine.step.engine.world.environment.find? name ≠
          engine.world.environment.find? name →
        ∃ t, engine.executed? = some t ∧
          (name ∈ t.declaredNames ∨ ∃ target ∈ t.targets, target.name = name)) ∧
      ∀ name line after, engine.step = .error ⟨.unknownVariable name, line⟩ after →
        ¬ ∃ before < calls, (first.afterCalls before).Declares name := by
  obtain rfl := eq_initial_of_start started
  have bare : (initial p input output prompts memory).world.environment = .empty := rfl
  have declared := isDeclared_afterCalls_iff bare
  have sound (calls : Nat) : ((initial p input output prompts memory).afterCalls calls).OnPath p :=
    (Reachable.start.afterCalls calls).onPath
  refine ⟨?_, declared, ?_, ?_⟩
  · intro earlier later order name
    rw [declared, declared]
    rintro ⟨before, less, declares⟩
    exact ⟨before, Nat.lt_of_lt_of_le less order, declares⟩
  · intro calls name known
    obtain ⟨before, _, names, size, type, line, _, executes, listed, _⟩ :=
      (declared calls name).1 known
    exact ⟨names, size, type, line, (sound before).mem_all_of_executed? executes, listed⟩
  · rintro calls _ rfl
    refine ⟨fun t => (sound calls).mem_all_of_executed?, executed?_eq_none, step_same_variables, ?_,
      ?_⟩
    · intro name changed
      by_contra unnamed
      refine changed (step_find?_eq fun t executes => ⟨?_, ?_⟩)
      · exact fun listed => unnamed ⟨t, executes, Or.inl listed⟩
      · exact fun target listed same => unnamed ⟨t, executes, Or.inr ⟨target, listed, same⟩⟩
    · intro name line after failed declares
      have unknown := step_grows.2 _ _ failed name rfl
      rw [(declared calls name).2 declares] at unknown
      cases unknown

theorem namespace_is_flat_behind_jump :
    ∃ p first engine after, Program.ofSource
        "begin x: integer; goto past; y: integer; past: x := 7; y := x end" = .ok p ∧
      start p [] .unlimited false (fun _ => true) = .ok first ∧ first.afterCalls 5 = engine ∧
      engine.step = .error ⟨.unknownVariable "y", 1⟩ after ∧
      .declare ["y"] none .integer 1 ∈ p.all ∧
      (¬ ∃ before < 5, (first.afterCalls before).Declares "y") ∧
      (∃ before < 5, (first.afterCalls before).Declares "x") ∧
      (first.afterCalls 6).world.environment.isDeclared "x" = true := by
  let p : Program := ⟨[.declare ["x"] none .integer 1, .goto "past" 1,
    .declare ["y"] none .integer 1, .label "past" 1, .assign ⟨"x", none, 1⟩ (.integer 7 1),
    .assign ⟨"y", none, 1⟩ (.var "x" 1)], 1⟩
  have parsed : Program.ofSource
      "begin x: integer; goto past; y: integer; past: x := 7; y := x end" = .ok p := by
    with_unfolding_all rfl
  let first := initial p [] .unlimited false (fun _ => true)
  have started : start p [] .unlimited false (fun _ => true) = .ok first := rfl
  let engine : Engine := { first with
    position := [⟨p.body, 5, false⟩]
    world := { first.world with environment := ⟨[("x", .integer 7)]⟩ } }
  have reached : first.afterCalls 5 = engine := rfl
  have failed : engine.step = .error ⟨.unknownVariable "y", 1⟩ engine := rfl
  have skipped : Statement.declare ["y"] none .integer 1 ∈ p.all :=
    .tail _ (.tail _ (.head _))
  have known : engine.world.environment.isDeclared "x" = true := rfl
  obtain ⟨grows, declared, _, steps⟩ :=
    namespace_is_flat p [] .unlimited false (fun _ => true) first
    started
  obtain ⟨_, _, _, _, unknown⟩ := steps 5 engine reached
  have completed := (declared 5 "x").1 (reached ▸ known)
  have later := grows 5 6 (by decide) "x" (reached ▸ known)
  exact ⟨p, first, engine, engine, parsed, started, reached, failed, skipped,
    unknown "y" 1 engine failed, completed, later⟩

end Engine

end GotoLang
