import GotoLang.Proofs.Behaviour

set_option autoImplicit false

namespace GotoLang

/-- An instruction of a flat program. A test that fails goes on at another place. -/
inductive Instruction where
  | act (effect : Effect)
  | test (condition : Expr) (otherwise : Nat)
  | jump (place : Nat)
  | label (name : String)
  | goto (name : String) (line : Nat)
  deriving DecidableEq

mutual

/-- The instructions of a statement, the first of them at the given place. -/
def Statement.code (place : Nat) : Statement → List Instruction
  | .block body _ => codeOf place body
  | .loop body _ => codeOf place body ++ [.jump place]
  | .ifThen condition branch _ =>
    let chosen := branch.code (place + 1)
    .test condition (place + 1 + chosen.length) :: chosen
  | .ifThenElse condition branch other _ =>
    let chosen := branch.code (place + 1)
    let otherwise := place + 1 + chosen.length + 1
    let rejected := other.code otherwise
    .test condition otherwise :: (chosen ++ .jump (otherwise + rejected.length) :: rejected)
  | .goto name line => [.goto name line]
  | .label name _ => [.label name]
  | s => (s.effect?.map Instruction.act).toList

def codeOf (place : Nat) : List Statement → List Instruction
  | [] => []
  | s :: rest => s.code place ++ codeOf (place + (s.code place).length) rest

end

def Program.flat (p : Program) : List Instruction :=
  codeOf 0 p.body

def address? (code : List Instruction) (name : String) : Option Nat :=
  code.findIdx? (· == .label name)

/-- A machine that runs a flat program: the place of its next instruction, and its world. -/
structure Machine where
  place : Nat
  world : World

namespace Machine

def initial (input : List UInt8) (output : Sink) (prompts : Bool) (memory : Nat → Bool) :
    Machine where
  place := 0
  world := { environment := .empty, input, output, prompts, memory }

/-- Carries out an instruction. The run ends behind the last one. -/
def step (code : List Instruction) (machine : Machine) : Except Conclusion Machine :=
  match code[machine.place]? with
  | none => .error ⟨.ok (), machine.world⟩
  | some (.act effect) =>
    match effect.run machine.world with
    | .ok _ world => .ok ⟨machine.place + 1, world⟩
    | .error e world => .error ⟨.error e, world⟩
  | some (.test condition otherwise) =>
    match condition.eval machine.world.environment with
    | .ok value => .ok ⟨if value.holds then machine.place + 1 else otherwise, machine.world⟩
    | .error e => .error ⟨.error e, machine.world⟩
  | some (.jump place) => .ok ⟨place, machine.world⟩
  | some (.label _) => .ok ⟨machine.place + 1, machine.world⟩
  | some (.goto name line) =>
    match address? code name with
    | some place => .ok ⟨place, machine.world⟩
    | none => .error ⟨.error ⟨.undefinedLabel name, line⟩, machine.world⟩

def operations (code : List Instruction) (machine : Machine) : List Operation :=
  match code[machine.place]? with
  | some (.act effect) => [.act effect]
  | some (.test condition _) => [.test condition]
  | _ => []

def automaton (code : List Instruction) : Automaton Machine where
  step := step code
  operations := operations code
  world := Machine.world

def behaviour (code : List Instruction) (machine : Machine) : Behaviour :=
  (automaton code).behaviour machine

end Machine

example : (Program.flat ⟨[.loop [.ifThenElse (.integer 1 1) (.goto "out" 1)
      (.block [.label "in" 1, .goto "in" 1] 1) 1] 1, .label "out" 1], 1⟩) =
    [.test (.integer 1 1) 3, .goto "out" 1, .jump 5, .label "in", .goto "in" 1, .jump 0,
      .label "out"] := by
  decide

section Code

variable {code piece first second : List Instruction} {place : Nat} {instruction : Instruction}

/-- The instructions from a place on begin with the given ones. -/
def CodeAt (code : List Instruction) (place : Nat) (piece : List Instruction) : Prop :=
  piece <+: code.drop place

namespace CodeAt

theorem all (code : List Instruction) : CodeAt code 0 code :=
  List.prefix_rfl

theorem left (stands : CodeAt code place (first ++ second)) : CodeAt code place first :=
  (List.prefix_append first second).trans stands

theorem right (stands : CodeAt code place (first ++ second)) :
    CodeAt code (place + first.length) second := by
  obtain ⟨rest, whole⟩ := stands
  have later : code.drop (place + first.length) = second ++ rest := by
    rw [← List.drop_drop, ← whole, List.append_assoc, List.drop_left]
  rw [CodeAt, later]
  exact List.prefix_append second rest

theorem head (stands : CodeAt code place (instruction :: piece)) :
    code[place]? = some instruction := by
  obtain ⟨rest, whole⟩ := stands
  rw [← List.head?_drop, ← whole, List.cons_append, List.head?_cons]

theorem tail (stands : CodeAt code place (instruction :: piece)) : CodeAt code (place + 1) piece :=
  CodeAt.right (show CodeAt code place ([instruction] ++ piece) from stands)

end CodeAt

end Code

namespace Machine

variable {code : List Instruction} {place next : Nat} {world after : World}

theorem steps_of_step (goes : step code ⟨place, world⟩ = .ok ⟨next, after⟩) :
    (automaton code).Steps world 1 ⟨place, world⟩ (operations code ⟨place, world⟩) ⟨next, after⟩ :=
  .one rfl goes

theorem steps_jump (here : code[place]? = some (.jump next)) :
    (automaton code).Steps world 1 ⟨place, world⟩ [] ⟨next, world⟩ := by
  have goes : step code ⟨place, world⟩ = .ok ⟨next, world⟩ := by
    simp only [step, here]
  simpa only [operations, here] using steps_of_step goes

theorem steps_label {name : String} (here : code[place]? = some (.label name)) :
    (automaton code).Steps world 1 ⟨place, world⟩ [] ⟨place + 1, world⟩ := by
  have goes : step code ⟨place, world⟩ = .ok ⟨place + 1, world⟩ := by
    simp only [step, here]
  simpa only [operations, here] using steps_of_step goes

theorem steps_goto {name : String} {line : Nat} (here : code[place]? = some (.goto name line))
    (leads : address? code name = some next) :
    (automaton code).Steps world 1 ⟨place, world⟩ [] ⟨next, world⟩ := by
  have goes : step code ⟨place, world⟩ = .ok ⟨next, world⟩ := by
    simp only [step, here, leads]
  simpa only [operations, here] using steps_of_step goes

theorem steps_test_holds {condition : Expr} {otherwise : Nat} {value : Value}
    (here : code[place]? = some (.test condition otherwise))
    (tested : condition.eval world.environment = .ok value) (holds : value.holds = true) :
    (automaton code).Steps world 1 ⟨place, world⟩ [.test condition] ⟨place + 1, world⟩ := by
  have goes : step code ⟨place, world⟩ = .ok ⟨place + 1, world⟩ := by
    simp only [step, here, tested, holds, if_true]
  simpa only [operations, here] using steps_of_step goes

theorem steps_test_fails {condition : Expr} {otherwise : Nat} {value : Value}
    (here : code[place]? = some (.test condition otherwise))
    (tested : condition.eval world.environment = .ok value) (fails : value.holds = false) :
    (automaton code).Steps world 1 ⟨place, world⟩ [.test condition] ⟨otherwise, world⟩ := by
  have goes : step code ⟨place, world⟩ = .ok ⟨otherwise, world⟩ := by
    simp only [step, here, tested, fails, Bool.false_eq_true, if_false]
  simpa only [operations, here] using steps_of_step goes

theorem steps_act {effect : Effect} (here : code[place]? = some (.act effect))
    (ran : effect.run world = .ok () after) :
    (automaton code).Steps world 1 ⟨place, world⟩ [.act effect] ⟨place + 1, after⟩ := by
  have goes : step code ⟨place, world⟩ = .ok ⟨place + 1, after⟩ := by
    simp only [step, here, ran]
  simpa only [operations, here] using steps_of_step goes

/-- A last instruction ends the run with its operations. -/
theorem ends_of_step {conclusion : Conclusion}
    (stops : step code ⟨place, world⟩ = .error conclusion) :
    (automaton code).Ends world ⟨place, world⟩ (operations code ⟨place, world⟩) conclusion :=
  ⟨0, [], ⟨place, world⟩, .refl _, rfl, rfl, stops⟩

theorem ends_test {condition : Expr} {otherwise : Nat} {e : RuntimeError}
    (here : code[place]? = some (.test condition otherwise))
    (tested : condition.eval world.environment = .error e) :
    (automaton code).Ends world ⟨place, world⟩ [.test condition] ⟨.error e, world⟩ := by
  have stops : step code ⟨place, world⟩ = .error ⟨.error e, world⟩ := by
    simp only [step, here, tested]
  simpa only [operations, here] using ends_of_step stops

theorem ends_act {effect : Effect} {e : RuntimeError} (here : code[place]? = some (.act effect))
    (ran : effect.run world = .error e after) :
    (automaton code).Ends world ⟨place, world⟩ [.act effect] ⟨.error e, after⟩ := by
  have stops : step code ⟨place, world⟩ = .error ⟨.error e, after⟩ := by
    simp only [step, here, ran]
  simpa only [operations, here] using ends_of_step stops

theorem ends_goto {name : String} {line : Nat} (here : code[place]? = some (.goto name line))
    (missing : address? code name = none) :
    (automaton code).Ends world ⟨place, world⟩ []
      ⟨.error ⟨.undefinedLabel name, line⟩, world⟩ := by
  have stops : step code ⟨place, world⟩ = .error ⟨.error ⟨.undefinedLabel name, line⟩, world⟩ := by
    simp only [step, here, missing]
  simpa only [operations, here] using ends_of_step stops

theorem ends_behind :
    (automaton code).Ends world ⟨code.length, world⟩ [] ⟨.ok (), world⟩ := by
  have behind : code[code.length]? = none := List.getElem?_eq_none (Nat.le_refl _)
  have stops : step code ⟨code.length, world⟩ = .error ⟨.ok (), world⟩ := by
    simp only [step, behind]
  simpa only [operations, behind] using ends_of_step stops

end Machine

/-- Jumps alone lead from one place to the other. -/
inductive Slides (code : List Instruction) : Nat → Nat → Prop
  | refl (place : Nat) : Slides code place place
  | jump {place next last : Nat} (here : code[place]? = some (.jump next))
      (rest : Slides code next last) : Slides code place last

theorem Slides.steps {code : List Instruction} {place last : Nat} (slides : Slides code place last)
    (world : World) :
    ∃ n, (Machine.automaton code).Steps world n ⟨place, world⟩ [] ⟨last, world⟩ := by
  induction slides with
  | refl place => exact ⟨0, .refl _⟩
  | jump here _ ih =>
    obtain ⟨n, steps⟩ := ih
    exact ⟨1 + n, (Machine.steps_jump here).trans steps⟩

end GotoLang
