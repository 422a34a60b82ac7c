import GotoLang.Proofs.EngineBehaviour
import GotoLang.Proofs.FailedStep
import Mathlib.Data.List.Forall2

set_option autoImplicit false

namespace GotoLang

/-- What corresponds in two runs. Behind an error at which they part nothing is said of the second
run any more. -/
structure Coupling where
  worlds : World → World → Prop
  errors : RuntimeError → RuntimeError → Prop
  parts : RuntimeError → Prop

namespace Coupling

/-- Both results are values that correspond, or both are errors that do. -/
inductive Results (c : Coupling) {σ α β : Type} (states : σ → σ → Prop) (values : α → β → Prop) :
    EStateM.Result RuntimeError σ α → EStateM.Result RuntimeError σ β → Prop
  | ok {a : α} {b : β} {s t : σ} (same : values a b) (after : states s t) :
      Results c states values (.ok a s) (.ok b t)
  | error {e f : RuntimeError} {s t : σ} (same : c.errors e f) (after : states s t) :
      Results c states values (.error e s) (.error f t)
  | parted {e : RuntimeError} {s : σ} {other : EStateM.Result RuntimeError σ β} (ends : c.parts e) :
      Results c states values (.error e s) other

def Actions (c : Coupling) {α β : Type} (values : α → β → Prop) (one : Action α)
    (other : Action β) : Prop :=
  ∀ world twin, c.worlds world twin → c.Results c.worlds values (one world) (other twin)

variable {c : Coupling} {α β γ δ : Type} {values : α → β → Prop}

theorem Actions.pure {a : α} {b : β} (same : values a b) :
    c.Actions values (pure a) (pure b) :=
  fun _ _ related => .ok same related

theorem Actions.throw {e f : RuntimeError} (same : c.errors e f) :
    c.Actions values (throw e) (throw f) :=
  fun _ _ related => .error same related

/-- An action that only looks at the world keeps step with itself if it sees the same in both. -/
theorem Actions.look {seen : World → Except RuntimeError α} (errors : ∀ e, c.errors e e)
    (same : ∀ world twin, c.worlds world twin → seen twin = seen world) :
    c.Actions Eq (get >>= fun world => Action.ofResult (seen world))
      (get >>= fun world => Action.ofResult (seen world)) := by
  intro world twin related
  show c.Results c.worlds Eq (Action.ofResult (seen world) world) (Action.ofResult (seen twin) twin)
  rw [same world twin related]
  cases seen world with
  | ok a => exact .ok rfl related
  | error e => exact .error (errors e) related

theorem Actions.bind {later : γ → δ → Prop} {one : Action α} {other : Action β}
    {next : α → Action γ} {following : β → Action δ} (first : c.Actions values one other)
    (rest : ∀ a b, values a b → c.Actions later (next a) (following b)) :
    c.Actions later (one >>= next) (other >>= following) := by
  intro world twin related
  have both := first world twin related
  simp only [Bind.bind, EStateM.bind]
  generalize one world = result, other twin = resultTwin at both ⊢
  cases both with
  | ok same after => exact rest _ _ same _ _ after
  | error same after => exact .error same after
  | parted ends => exact .parted ends

theorem Actions.forM {each : α → Action Unit} {eachTwin : β → Action Unit} {items : List α}
    {twins : List β} (paired : List.Forall₂ values items twins)
    (keeps : ∀ a b, values a b → c.Actions Eq (each a) (eachTwin b)) :
    c.Actions Eq (items.forM each) (twins.forM eachTwin) := by
  induction paired with
  | nil => exact .pure rfl
  | cons same _ ih => exact .bind (keeps _ _ same) fun _ _ _ => ih

theorem Actions.forM_map {each : α → Action Unit} {eachTwin : β → Action Unit} {f : α → β}
    (items : List α) (keeps : ∀ a, c.Actions Eq (each a) (eachTwin (f a))) :
    c.Actions Eq (items.forM each) ((items.map f).forM eachTwin) := by
  have paired : List.Forall₂ (fun a b => b = f a) items (items.map f) := by
    rw [List.forall₂_map_right_iff]
    exact List.forall₂_same.2 fun _ _ => rfl
  apply Actions.forM paired
  intro a _ same
  exact same ▸ keeps a

theorem Actions.forM_same {each eachTwin : α → Action Unit} (items : List α)
    (keeps : ∀ a, c.Actions Eq (each a) (eachTwin a)) :
    c.Actions Eq (items.forM each) (items.forM eachTwin) := by
  simpa only [List.map_id'] using Actions.forM_map items keeps

/-- What a statement does beside reading keeps step with itself. -/
structure KeptOutsideReads (c : Coupling) : Prop where
  error : ∀ e, c.errors e e
  evaluate : ∀ e, c.Actions Eq (Action.evaluate e) (Action.evaluate e)
  vector : ∀ type length line,
    c.Actions Eq (Action.vector type length line) (Action.vector type length line)
  declare : ∀ value name, c.Actions Eq (Action.declare value name) (Action.declare value name)
  store : ∀ target value, c.Actions Eq (Action.store target value) (Action.store target value)
  emit : ∀ line text, c.Actions Eq (Action.emit line text) (Action.emit line text)
  flush : ∀ line, c.Actions Eq (Action.flush line) (Action.flush line)

/-- The parts of statements keep step with themselves. -/
structure Kept (c : Coupling) : Prop extends KeptOutsideReads c where
  readTarget : ∀ line target,
    c.Actions Eq (Action.readTarget line target) (Action.readTarget line target)

namespace KeptOutsideReads

theorem initial (kept : c.KeptOutsideReads) (size : Option Expr) (type : ElementType)
    (line : Nat) :
    c.Actions Eq (Action.initial size type line) (Action.initial size type line) := by
  cases size with
  | none => exact .pure rfl
  | some size =>
    apply Actions.bind (kept.evaluate size)
    intro length _ same
    exact same ▸ kept.vector type length line

theorem writeItem (kept : c.KeptOutsideReads) (line : Nat) (item : WriteItem) :
    c.Actions Eq (Action.writeItem line item) (Action.writeItem line item) := by
  cases item with
  | expr e =>
    apply Actions.bind (kept.evaluate e)
    intro value _ same
    exact same ▸ kept.emit line value.toText
  | layout l =>
    cases l with
    | space => exact kept.emit line " "
    | tab => exact kept.emit line "\t"
    | skip => exact .pure rfl

/-- The effects keep step if targets that are read do. -/
theorem effect (kept : c.KeptOutsideReads) (effect : Effect)
    (reads : ∀ targets line, effect = .read targets line →
      c.Actions Eq (targets.forM (Action.readTarget line)) (targets.forM (Action.readTarget line))) :
    c.Actions Eq effect.run effect.run := by
  cases effect with
  | declare names size type line =>
    apply Actions.bind (kept.initial size type line)
    intro value _ same
    exact same ▸ .forM_same names (kept.declare value)
  | assign target e =>
    apply Actions.bind (kept.evaluate e)
    intro value _ same
    exact same ▸ kept.store target value
  | read targets line => exact reads targets line rfl
  | write items line =>
    apply Actions.bind (Actions.forM_same items (kept.writeItem line))
    intro _ _ _
    exact kept.emit line "\n"

end KeptOutsideReads

namespace Kept

theorem effect (kept : c.Kept) (effect : Effect) : c.Actions Eq effect.run effect.run := by
  apply kept.toKeptOutsideReads.effect
  intro targets line _
  exact .forM_same targets (kept.readTarget line)

theorem execute_of_effect? (kept : c.Kept) {s : Statement} {effect : Effect}
    (acts : s.effect? = some effect) : c.Actions Eq s.execute s.execute := by
  rw [Statement.execute_of_effect? acts]
  exact .bind (kept.effect effect) fun _ _ _ => .pure rfl

/-- If the parts of a statement keep step, then so does the statement. -/
theorem execute (kept : c.Kept) (s : Statement) : c.Actions Eq s.execute s.execute := by
  induction s with
  | ifThen condition branch line ih =>
    apply Actions.bind (kept.evaluate condition)
    intro value _ same
    subst same
    by_cases holds : value.holds = true
    · simpa only [if_pos holds] using ih
    · simpa only [if_neg holds] using Actions.pure rfl
  | ifThenElse condition branch other line ihBranch ihOther =>
    apply Actions.bind (kept.evaluate condition)
    intro value _ same
    subst same
    by_cases holds : value.holds = true
    · simpa only [if_pos holds] using ihBranch
    · simpa only [if_neg holds] using ihOther
  | declare | assign | read | write => exact kept.execute_of_effect? rfl
  | block | loop | goto | label | empty => exact .pure rfl

end Kept

/-- Two engines that differ in nothing but their worlds, which correspond. -/
def Engines (c : Coupling) (one other : Engine) : Prop :=
  ∃ twin, c.worlds one.world twin ∧ other = { one with world := twin }

/-- Two runs have come equally far, unless they have parted. -/
inductive Progresses (c : Coupling) : Engine.Progress → Engine.Progress → Prop
  | running {one other : Engine} (related : c.Engines one other) :
      Progresses c (.running one) (.running other)
  | ended {one other : Outcome Unit} (results : c.Results c.Engines Eq one other) :
      Progresses c (.ended one) (.ended other)
  | parted {e : RuntimeError} {last : Engine} {other : Engine.Progress} (ends : c.parts e) :
      Progresses c (.ended (.error e last)) other

variable {one other : Engine}

/-- If a statement keeps step, then so does its execution by the engine. -/
theorem Results.perform {s : Statement} {twin : World}
    (both : c.Results c.worlds Eq (s.execute one.world) (s.execute twin)) :
    c.Results c.Engines Eq (one.perform s) ({ one with world := twin }.perform s) := by
  obtain ⟨labels, position, jump?, world, line⟩ := one
  simp only [Engine.perform]
  generalize s.execute world = result, s.execute twin = resultTwin at both ⊢
  cases both with
  | @ok flow _ _ _ same after =>
    subst same
    cases flow <;> exact .ok rfl ⟨_, after, rfl⟩
  | error same after => exact .error same ⟨_, after, rfl⟩
  | parted ends => exact .parted ends

/-- Steps keep step if the statements that they execute do. -/
theorem KeptOutsideReads.step (kept : c.KeptOutsideReads) (related : c.Engines one other)
    (performs : ∀ frame outer s, one.jump? = none → one.position = frame :: outer →
      frame.current? = some s → c.Results c.Engines Eq (one.perform s) (other.perform s)) :
    c.Results c.Engines Eq one.step other.step := by
  obtain ⟨labels, position, jump?, world, line⟩ := one
  obtain ⟨twin, worlds, rfl⟩ := related
  cases jump? with
  | some jump =>
    simp only [Engine.step, Engine.carryOut]
    cases labels.resolve jump.label jump.line with
    | ok marker => exact .ok rfl ⟨_, worlds, rfl⟩
    | error e => exact .error (kept.error e) ⟨_, worlds, rfl⟩
  | none =>
    cases position with
    | nil => exact .ok rfl ⟨_, worlds, rfl⟩
    | cons frame outer =>
      cases here : frame.current? with
      | some s =>
        simp only [Engine.step, here]
        exact performs frame outer s rfl rfl here
      | none =>
        simp only [Engine.step, here]
        cases frame.isLoop <;> exact .ok rfl ⟨_, worlds, rfl⟩

theorem KeptOutsideReads.finish (kept : c.KeptOutsideReads) (related : c.Engines one other) :
    c.Results c.Engines Eq one.finish other.finish := by
  obtain ⟨labels, position, jump?, world, line⟩ := one
  obtain ⟨twin, worlds, rfl⟩ := related
  have both := kept.flush line world twin worlds
  simp only [Engine.finish]
  generalize Action.flush line world = result, Action.flush line twin = resultTwin at both ⊢
  cases both with
  | ok same after => exact .ok rfl ⟨_, after, rfl⟩
  | error same after => exact .error same ⟨_, after, rfl⟩
  | parted ends => exact .parted ends

namespace Kept

theorem step (kept : c.Kept) (related : c.Engines one other) :
    c.Results c.Engines Eq one.step other.step := by
  apply kept.toKeptOutsideReads.step related
  obtain ⟨twin, worlds, rfl⟩ := related
  intro frame outer s _ _ _
  exact .perform (kept.execute s one.world twin worlds)

/-- Two runs of one program from worlds that correspond keep step. -/
theorem runFor (kept : c.Kept) (related : c.Engines one other) (steps : Nat) :
    c.Progresses (one.runFor steps) (other.runFor steps) := by
  induction steps generalizing one other with
  | zero => exact .running related
  | succ steps ih =>
    have both := kept.step related
    simp only [Engine.runFor]
    generalize one.step = outcome, other.step = outcomeTwin at both ⊢
    cases both with
    | @ok goes _ next _ same after =>
      subst same
      cases goes with
      | true => exact ih after
      | false => exact .ended (kept.finish after)
    | error same after => exact .ended (.error same after)
    | parted ends => exact .parted ends

end Kept

end Coupling

end GotoLang
