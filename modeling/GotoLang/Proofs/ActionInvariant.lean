import GotoLang.Proofs.EvaluationFault
import GotoLang.Proofs.FailedStep

set_option autoImplicit false

namespace GotoLang

namespace Action

/-- Started where the condition holds, the action ends where it holds, with one of these values or
with one of these errors. -/
def Keeps {α : Type} (holds : World → Prop) (values : α → Prop) (errors : RuntimeError → Prop)
    (action : Action α) : Prop :=
  ∀ world, holds world →
    match action world with
    | .ok a after => values a ∧ holds after
    | .error e after => errors e ∧ holds after

namespace Keeps

variable {α β : Type} {holds : World → Prop} {values : α → Prop} {errors : RuntimeError → Prop}

theorem pure {a : α} (value : values a) : Keeps holds values errors (pure a) :=
  fun _ before => ⟨value, before⟩

theorem bind {later : β → Prop} {action : Action α} {next : α → Action β}
    (first : Keeps holds values errors action)
    (rest : ∀ a, values a → Keeps holds later errors (next a)) :
    Keeps holds later errors (action >>= next) := by
  intro world before
  have kept := first world before
  simp only [Bind.bind, EStateM.bind]
  generalize action world = result at kept ⊢
  cases result with
  | ok a after => exact rest a kept.1 after kept.2
  | error e after => exact kept

theorem forM {items : List α} {each : α → Action Unit}
    (keeps : ∀ item ∈ items, Keeps holds (fun _ => True) errors (each item)) :
    Keeps holds (fun _ => True) errors (items.forM each) := by
  induction items with
  | nil => exact pure trivial
  | cons item rest ih =>
    have ⟨first, others⟩ := List.forall_mem_cons.1 keeps
    exact bind first fun _ _ => ih others

theorem ofResult {result : Except RuntimeError α} (yields : Yields values errors result) :
    Keeps holds values errors (Action.ofResult result) := by
  intro world before
  cases result with
  | ok a => exact ⟨yields, before⟩
  | error e => exact ⟨yields, before⟩

theorem evaluate {kinds : Value → Prop} {e : Expr}
    (yields : ∀ world, holds world → Yields kinds errors (e.eval world.environment)) :
    Keeps holds kinds errors (Action.evaluate e) := by
  intro world before
  exact ofResult (yields world before) world before

theorem vector {type : ElementType} {length : Value} {line : Nat} {values : Value → Prop}
    (yields : ∀ memory, Yields values errors (onLine line (type.vector memory length))) :
    Keeps holds values errors (Action.vector type length line) := by
  intro world before
  exact ofResult (yields world.memory) world before

theorem store {target : Target} {value : Value}
    (yields : ∀ world, holds world → Yields (fun environment => holds { world with environment })
      errors (world.environment.store target value)) :
    Keeps holds (fun _ => True) errors (Action.store target value) := by
  intro world before
  have stored := yields world before
  rw [store_apply]
  generalize world.environment.store target value = result at stored ⊢
  cases result with
  | ok environment => exact ⟨trivial, stored⟩
  | error e => exact ⟨stored, before⟩

theorem emit (unseen : ∀ world output, holds world → holds { world with output }) {line : Nat}
    (fails : errors ⟨.console .writeLimit, line⟩) (text : String) :
    Keeps holds (fun _ => True) errors (Action.emit line text) := by
  intro world before
  rw [emit_apply]
  cases (world.output.write text.toUTF8).2 with
  | true => exact ⟨trivial, unseen world _ before⟩
  | false => exact ⟨fails, unseen world _ before⟩

theorem flush {line : Nat} (fails : errors ⟨.console .flushFailed, line⟩) :
    Keeps holds (fun _ => True) errors (Action.flush line) := by
  intro world before
  rw [flush_apply]
  cases world.output.refusesFlush with
  | true => exact ⟨fails, before⟩
  | false => exact ⟨trivial, before⟩

theorem prompt (unseen : ∀ world output, holds world → holds { world with output }) {line : Nat}
    (full : errors ⟨.console .writeLimit, line⟩) (fails : errors ⟨.console .flushFailed, line⟩)
    (name : String) : Keeps holds (fun _ => True) errors (Action.prompt line name) := by
  intro world before
  rw [prompt_apply]
  cases world.prompts with
  | true => exact bind (emit unseen full _) (fun _ _ => flush fails) world before
  | false => exact ⟨trivial, before⟩

theorem nextLine (untaken : ∀ world input, holds world → holds { world with input }) {line : Nat}
    {name : String} (invalid : errors ⟨.console .invalidText, line⟩)
    (lacks : errors ⟨.inputExhausted name, line⟩) :
    Keeps holds (fun _ => True) errors (Action.nextLine line name) := by
  intro world before
  have after := untaken world (splitLine world.input).2 before
  rw [nextLine_apply]
  cases String.fromUTF8? (splitLine world.input).1.toByteArray with
  | none => exact ⟨invalid, after⟩
  | some text =>
    by_cases empty : (splitLine world.input).1 = []
    · simp only [if_pos empty]
      exact ⟨lacks, after⟩
    · simp only [if_neg empty]
      exact ⟨trivial, after⟩

theorem writeItem (unseen : ∀ world output, holds world → holds { world with output })
    {line : Nat} (fails : errors ⟨.console .writeLimit, line⟩) {item : WriteItem}
    (yields : ∀ e, item = .expr e → ∀ world, holds world →
      Yields (fun _ => True) errors (e.eval world.environment)) :
    Keeps holds (fun _ => True) errors (Action.writeItem line item) := by
  cases item with
  | expr e =>
    apply bind (evaluate (yields e rfl))
    intro value _
    exact emit unseen fails value.toText
  | layout l =>
    cases l with
    | space => exact emit unseen fails " "
    | tab => exact emit unseen fails "\t"
    | skip => exact pure trivial

end Keeps

end Action

end GotoLang
