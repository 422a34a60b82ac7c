import GotoLang.Proofs.Execution
import Mathlib.Order.Defs.Unbundled

set_option autoImplicit false

namespace GotoLang

/-- The action leads from a world only to worlds that are related to it. -/
def Action.Within {α : Type} (r : World → World → Prop) (action : Action α) : Prop :=
  ∀ world, r world (stateAfter (action world))

/-- The relation allows the changes that effects consist of. -/
structure World.Allows (r : World → World → Prop) : Prop where
  environment : ∀ (world : World) environment, r world { world with environment }
  input : ∀ (world : World) input, r world { world with input }
  output : ∀ (world : World) bytes,
    r world { world with output := (world.output.write bytes).1 }

namespace Action

variable {r : World → World → Prop} {α β : Type}

theorem emit_apply (line : Nat) (text : String) (world : World) :
    emit line text world =
      if (world.output.write text.toUTF8).2 then
        .ok () { world with output := (world.output.write text.toUTF8).1 }
      else
        .error ⟨.console .writeLimit, line⟩
          { world with output := (world.output.write text.toUTF8).1 } := by
  show (do
    set { world with output := (world.output.write text.toUTF8).1 }
    unless (world.output.write text.toUTF8).2 do
      throw ⟨.console .writeLimit, line⟩ : Action Unit) world = _
  cases (world.output.write text.toUTF8).2 <;> rfl

theorem flush_apply (line : Nat) (world : World) :
    flush line world =
      if world.output.refusesFlush then .error ⟨.console .flushFailed, line⟩ world
      else .ok () world := by
  show (do
    if world.output.refusesFlush then throw ⟨.console .flushFailed, line⟩ : Action Unit) world = _
  cases world.output.refusesFlush <;> rfl

theorem nextLine_apply (line : Nat) (name : String) (world : World) :
    nextLine line name world =
      match String.fromUTF8? (splitLine world.input).1.toByteArray with
      | none => .error ⟨.console .invalidText, line⟩
          { world with input := (splitLine world.input).2 }
      | some text =>
        if (splitLine world.input).1 = [] then
          .error ⟨.inputExhausted name, line⟩ { world with input := (splitLine world.input).2 }
        else .ok text { world with input := (splitLine world.input).2 } := by
  show (do
    set { world with input := (splitLine world.input).2 }
    match String.fromUTF8? (splitLine world.input).1.toByteArray with
    | none => throw ⟨.console .invalidText, line⟩
    | some text =>
      if (splitLine world.input).1 = [] then throw ⟨.inputExhausted name, line⟩
      else return text : Action String) world = _
  cases String.fromUTF8? (splitLine world.input).1.toByteArray with
  | none => rfl
  | some text =>
    by_cases empty : (splitLine world.input).1 = []
    · simp only [if_pos empty]
      rfl
    · simp only [if_neg empty]
      rfl

theorem Within.bind_get {next : World → Action α}
    (rest : ∀ world, r world (stateAfter (next world world))) : Within r (get >>= next) :=
  rest

theorem Within.modify {change : World → World} (allowed : ∀ world, r world (change world)) :
    Within r (modify change : Action PUnit) :=
  allowed

theorem Within.declare (allows : World.Allows r) (value : Value) (name : String) :
    (Action.declare value name).Within r :=
  .modify fun world => allows.environment world (world.environment.declare name value)

theorem Within.emit (allows : World.Allows r) (line : Nat) (text : String) :
    (emit line text).Within r := by
  intro world
  rw [emit_apply]
  cases (world.output.write text.toUTF8).2 <;> exact allows.output world text.toUTF8

theorem Within.nextLine (allows : World.Allows r) (line : Nat) (name : String) :
    (nextLine line name).Within r := by
  intro world
  rw [nextLine_apply]
  cases String.fromUTF8? (splitLine world.input).1.toByteArray with
  | none => exact allows.input world (splitLine world.input).2
  | some text =>
    simp only
    split <;> exact allows.input world (splitLine world.input).2

variable [IsPreorder World r]

theorem Within.pure (a : α) : Within r (pure a : Action α) :=
  fun world => refl_of r world

theorem Within.throw (e : RuntimeError) : Within r (throw e : Action α) :=
  fun world => refl_of r world

theorem Within.bind {action : Action α} {next : α → Action β} (first : action.Within r)
    (rest : ∀ a, (next a).Within r) : (action >>= next).Within r := by
  intro world
  have before := first world
  cases ran : action world with
  | ok a after =>
    rw [ran] at before
    simpa only [Bind.bind, EStateM.bind, ran] using trans_of r before (rest a after)
  | error e after =>
    rw [ran] at before
    simp only [Bind.bind, EStateM.bind, ran]
    exact before

theorem Within.forM {action : β → Action Unit} {items : List β}
    (each : ∀ item, (action item).Within r) : Within r (items.forM action) := by
  induction items with
  | nil => exact .pure ()
  | cons item items ih => exact .bind (each item) fun _ => ih

theorem Within.ofResult (result : Except RuntimeError α) : (ofResult result).Within r := by
  cases result with
  | ok a => exact .pure a
  | error e => exact .throw e

theorem Within.evaluate (e : Expr) : (evaluate e).Within r :=
  .bind_get fun world => Within.ofResult (e.eval world.environment) world

theorem Within.vector (type : ElementType) (length : Value) (line : Nat) :
    (vector type length line).Within r :=
  .bind_get fun world => Within.ofResult (onLine line (type.vector world.memory length)) world

theorem Within.initial (size : Option Expr) (type : ElementType) (line : Nat) :
    (Action.initial size type line).Within r := by
  cases size with
  | none => exact .pure type.initial
  | some size => exact .bind (.evaluate size) fun length => .vector type length line

theorem Within.flush (line : Nat) : (flush line).Within r := by
  intro world
  rw [flush_apply]
  cases world.output.refusesFlush <;> exact refl_of r world

theorem Within.store (allows : World.Allows r) (target : Target) (value : Value) :
    (store target value).Within r :=
  .bind_get fun world => Within.bind (.ofResult (world.environment.store target value))
    (fun environment => .modify fun world => allows.environment world environment) world

theorem Within.prompt (allows : World.Allows r) (line : Nat) (name : String) :
    (prompt line name).Within r := by
  refine .bind_get fun world => ?_
  cases world.prompts with
  | true => exact Within.bind (.emit allows line _) (fun _ => .flush line) world
  | false => exact Within.pure () world

theorem Within.readTarget (allows : World.Allows r) (line : Nat) (target : Target) :
    (readTarget line target).Within r :=
  .bind (.prompt allows line target.name) fun _ =>
    .bind (.nextLine allows line target.name) fun text => .store allows target (.ofLine text)

theorem Within.writeItem (allows : World.Allows r) (line : Nat) (item : WriteItem) :
    (writeItem line item).Within r := by
  cases item with
  | expr e => exact .bind (.evaluate e) fun value => .emit allows line value.toText
  | layout l =>
    cases l with
    | space => exact .emit allows line " "
    | tab => exact .emit allows line "\t"
    | skip => exact .pure ()

end Action

/-- An effect leads only to worlds that its changes are allowed to lead to. -/
theorem Effect.run_within {r : World → World → Prop} [IsPreorder World r]
    (allows : World.Allows r) (effect : Effect) : effect.run.Within r := by
  cases effect with
  | declare names size type line =>
    exact .bind (.initial size type line) fun value => .forM fun name => .declare allows value name
  | assign target e => exact .bind (.evaluate e) fun value => .store allows target value
  | read targets line => exact .forM fun target => .readTarget allows line target
  | write items line =>
    exact .bind (.forM fun item => .writeItem allows line item) fun _ => .emit allows line "\n"

/-- Only conditions and effects act on the world, so a statement leads to no other worlds either. -/
theorem Statement.execute_within {r : World → World → Prop} [IsPreorder World r]
    (allows : World.Allows r) (s : Statement) : s.execute.Within r := by
  intro world
  have performed := s.execution world
  generalize s.execute world = result, s.operations world = operations at performed
  induction performed with
  | block | loop | goto | label | empty | untested | skipped | undecided => exact refl_of r world
  | @done _ effect after acts ran | @failed _ effect e after acts ran =>
    have within := effect.run_within allows world
    rwa [ran] at within
  | chosen _ _ _ ih | branch _ _ _ ih | other _ _ _ ih => exact ih

/-- Two worlds prompt alike and have outputs of the same kind. -/
def World.SameSettings (one other : World) : Prop :=
  other.prompts = one.prompts ∧ other.output.limit = one.output.limit ∧
    other.output.failFlush = one.output.failFlush

instance : IsPreorder World World.SameSettings where
  refl _ := ⟨rfl, rfl, rfl⟩
  trans _ _ _ first second :=
    ⟨second.1.trans first.1, second.2.1.trans first.2.1, second.2.2.trans first.2.2⟩

theorem World.SameSettings.flushes {one other : World} (same : one.SameSettings other)
    (flushes : ∀ size, one.output.failFlush size = false) (size : Nat) :
    other.output.failFlush size = false := by
  rw [same.2.2]
  exact flushes size

theorem Sink.write_settings (sink : Sink) (bytes : ByteArray) :
    (sink.write bytes).1.limit = sink.limit ∧ (sink.write bytes).1.failFlush = sink.failFlush := by
  unfold write
  cases sink.room? with
  | none => exact ⟨rfl, rfl⟩
  | some room => by_cases fits : bytes.size ≤ room <;> simp only [fits, if_true, if_false, and_self]

theorem World.SameSettings.allows : World.Allows World.SameSettings where
  environment _ _ := ⟨rfl, rfl, rfl⟩
  input _ _ := ⟨rfl, rfl, rfl⟩
  output world bytes := ⟨rfl, world.output.write_settings bytes⟩

end GotoLang
