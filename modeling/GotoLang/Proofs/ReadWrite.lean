import GotoLang.Proofs.ActionFrame

set_option autoImplicit false

namespace GotoLang

namespace Sink

def add (sink : Sink) (text : String) : Sink :=
  { sink with written := sink.written ++ text.toUTF8 }

/-- The output has grown by a front part of a text, which may be all of it or nothing. -/
def GrownBy (before after : Sink) (text : String) : Prop :=
  ∃ part rest, part ++ rest = text.toUTF8 ∧
    after = { before with written := before.written ++ part }

variable {before between after : Sink} {text more : String}

@[simp] theorem add_nothing (sink : Sink) : sink.add "" = sink := by
  have nothing : "".toUTF8 = ByteArray.empty := rfl
  simp only [add, nothing, ByteArray.append_empty]

theorem add_add (sink : Sink) (text more : String) :
    (sink.add text).add more = sink.add (text ++ more) := by
  simp only [add, String.toUTF8, String.toByteArray_append, ByteArray.append_assoc]

theorem GrownBy.refl (sink : Sink) (text : String) : sink.GrownBy sink text := by
  refine ⟨.empty, text.toUTF8, ByteArray.empty_append, ?_⟩
  simp only [ByteArray.append_empty]

theorem GrownBy.of_add (sink : Sink) (text : String) : sink.GrownBy (sink.add text) text :=
  ⟨text.toUTF8, .empty, ByteArray.append_empty, rfl⟩

theorem GrownBy.append (grown : before.GrownBy after text) (more : String) :
    before.GrownBy after (text ++ more) := by
  obtain ⟨part, rest, split, rfl⟩ := grown
  refine ⟨part, rest ++ more.toUTF8, ?_, rfl⟩
  rw [← ByteArray.append_assoc, split]
  exact String.toByteArray_append.symm

theorem GrownBy.behind (grown : (before.add text).GrownBy after more) :
    before.GrownBy after (text ++ more) := by
  obtain ⟨part, rest, split, rfl⟩ := grown
  refine ⟨text.toUTF8 ++ part, rest, ?_, ?_⟩
  · rw [ByteArray.append_assoc, split]
    exact String.toByteArray_append.symm
  · simp only [add, ByteArray.append_assoc]

/-- Writing takes all the bytes or stops behind the last one that there is room for. -/
theorem write_eq (sink : Sink) (bytes : ByteArray) :
    sink.write bytes = ({ sink with written := sink.written ++ bytes }, true) ∨
      ∃ room, room < bytes.size ∧
        sink.write bytes =
          ({ sink with written := sink.written ++ bytes.extract 0 room }, false) := by
  unfold write
  cases sink.room? with
  | none => exact Or.inl rfl
  | some room =>
    by_cases fits : bytes.size ≤ room
    · exact Or.inl (if_pos fits)
    · exact Or.inr ⟨room, by omega, if_neg fits⟩

end Sink

namespace Action

variable {α β : Type} {world after : World} {e : RuntimeError} {line : Nat}

theorem bind_eq_ok_iff {action : Action α} {next : α → Action β} {b : β} :
    (action >>= next) world = .ok b after ↔
      ∃ a between, action world = .ok a between ∧ next a between = .ok b after := by
  cases ran : action world with
  | ok a between => simp [bind, EStateM.bind, ran, and_assoc]
  | error e between => simp [bind, EStateM.bind, ran]

theorem bind_eq_error_iff {action : Action α} {next : α → Action β} :
    (action >>= next) world = .error e after ↔
      action world = .error e after ∨
        ∃ a between, action world = .ok a between ∧ next a between = .error e after := by
  cases ran : action world with
  | ok a between => simp [bind, EStateM.bind, ran, and_assoc]
  | error e between => simp [bind, EStateM.bind, ran]

/-- Of actions for the members of a list the first one that fails ends them all. -/
theorem forM_eq_error {action : β → Action Unit} {items : List β}
    (failed : items.forM action world = .error e after) :
    ∃ done item rest between, items = done ++ item :: rest ∧
      done.forM action world = .ok () between ∧ action item between = .error e after := by
  induction items generalizing world with
  | nil => cases failed
  | cons item items ih =>
    rcases bind_eq_error_iff.1 failed with failed | ⟨_, next, ran, failed⟩
    · exact ⟨[], item, items, world, rfl, rfl, failed⟩
    · obtain ⟨done, other, rest, between, rfl, filled, failed⟩ := ih failed
      exact ⟨item :: done, other, rest, between, rfl, bind_eq_ok_iff.2 ⟨_, _, ran, filled⟩, failed⟩

theorem emit_nothing (line : Nat) (world : World) : emit line "" world = .ok () world := by
  rw [emit_apply]
  rcases world.output.write_eq "".toUTF8 with complete | ⟨room, short, _⟩
  · have same : (⟨world.output.written ++ "".toUTF8, world.output.limit, world.output.failFlush⟩ :
        Sink) = world.output := world.output.add_nothing
    simp only [complete, same, if_true]
  · exact absurd short (Nat.not_lt_zero room)

theorem emit_ok {text : String} (ran : emit line text world = .ok () after) :
    after = { world with output := world.output.add text } := by
  rw [emit_apply] at ran
  rcases world.output.write_eq text.toUTF8 with complete | ⟨room, _, stopped⟩
  · simp only [complete, if_true] at ran
    cases ran
    rfl
  · simp only [stopped, Bool.false_eq_true, if_false] at ran
    cases ran

theorem emit_error {text : String} (failed : emit line text world = .error e after) :
    e = ⟨.console .writeLimit, line⟩ ∧ ∃ output, after = { world with output } ∧
      ∃ room, room < text.toUTF8.size ∧
        output = { world.output with
          written := world.output.written ++ text.toUTF8.extract 0 room } := by
  rw [emit_apply] at failed
  rcases world.output.write_eq text.toUTF8 with complete | ⟨room, short, stopped⟩
  · simp only [complete, if_true] at failed
    cases failed
  · simp only [stopped, Bool.false_eq_true, if_false] at failed
    cases failed
    exact ⟨rfl, _, rfl, room, short, rfl⟩

theorem emit_error_grown {text : String} (failed : emit line text world = .error e after) :
    ∃ output, after = { world with output } ∧ world.output.GrownBy output text := by
  obtain ⟨_, output, rfl, room, short, rfl⟩ := emit_error failed
  refine ⟨_, rfl, text.toUTF8.extract 0 room, text.toUTF8.extract room text.toUTF8.size, ?_, rfl⟩
  rw [ByteArray.extract_append_extract, Nat.min_eq_left (Nat.zero_le room),
    Nat.max_eq_right (Nat.le_of_lt short), ByteArray.extract_zero_size]

/-- Of an end of line that does not fit nothing is written. -/
theorem emit_newline_error (failed : emit line "\n" world = .error e after) : after = world := by
  obtain ⟨_, output, rfl, room, short, rfl⟩ := emit_error failed
  obtain rfl : room = 0 := Nat.lt_one_iff.1 short
  have nothing : ("\n".toUTF8).extract 0 0 = ByteArray.empty := rfl
  rw [nothing, ByteArray.append_empty]

end Action

def WriteItem.text (env : Environment) : WriteItem → Except RuntimeError String
  | expr e => (e.eval env).map Value.toText
  | layout .space => .ok " "
  | layout .tab => .ok "\t"
  | layout .skip => .ok ""

/-- The text of the items of a `write` statement, up to the first one that has none. -/
def textOf (env : Environment) : List WriteItem → String
  | [] => ""
  | item :: rest =>
    match item.text env with
    | .ok text => text ++ textOf env rest
    | .error _ => ""

namespace Action

variable {world after : World} {e : RuntimeError} {line : Nat}

theorem writeItem_apply (line : Nat) (item : WriteItem) (world : World) :
    writeItem line item world =
      match item.text world.environment with
      | .ok text => emit line text world
      | .error e => .error e world := by
  cases item with
  | expr expression =>
    rw [writeItem, Statement.evaluate_bind, WriteItem.text]
    cases expression.eval world.environment <;> rfl
  | layout l =>
    cases l with
    | space => rfl
    | tab => rfl
    | skip => exact (emit_nothing line world).symm

/-- Items that are written leave the variables and the input as they were. -/
theorem writeItems_ok {items : List WriteItem}
    (ran : items.forM (writeItem line) world = .ok () after) :
    after = { world with output := world.output.add (textOf world.environment items) } := by
  induction items generalizing world with
  | nil =>
    cases ran
    rw [textOf, Sink.add_nothing]
  | cons item items ih =>
    obtain ⟨_, between, first, ran⟩ := bind_eq_ok_iff.1 ran
    rw [writeItem_apply] at first
    cases written : item.text world.environment with
    | ok text =>
      simp only [written] at first
      obtain rfl := emit_ok first
      rw [ih ran, textOf, written, Sink.add_add]
    | error e =>
      simp only [written] at first
      cases first

theorem writeItems_error {items : List WriteItem}
    (failed : items.forM (writeItem line) world = .error e after) :
    ∃ output, after = { world with output } ∧
      world.output.GrownBy output (textOf world.environment items) := by
  induction items generalizing world with
  | nil => cases failed
  | cons item items ih =>
    rcases bind_eq_error_iff.1 failed with failed | ⟨_, between, first, failed⟩
    · rw [writeItem_apply] at failed
      cases written : item.text world.environment with
      | ok text =>
        simp only [written] at failed
        obtain ⟨output, rfl, grown⟩ := emit_error_grown failed
        refine ⟨output, rfl, ?_⟩
        rw [textOf, written]
        exact grown.append _
      | error e =>
        simp only [written] at failed
        cases failed
        exact ⟨_, rfl, .refl _ _⟩
    · rw [writeItem_apply] at first
      cases written : item.text world.environment with
      | ok text =>
        simp only [written] at first
        obtain rfl := emit_ok first
        obtain ⟨output, rfl, grown⟩ := ih failed
        refine ⟨output, rfl, ?_⟩
        rw [textOf, written]
        exact grown.behind
      | error e =>
        simp only [written] at first
        cases first

end Action

def promptOf (prompts : Bool) (name : String) : String :=
  if prompts then s!"Enter value for {name}: " else ""

theorem promptOf_of_prompts {prompts : Bool} {name : String} (asks : prompts = true) :
    promptOf prompts name = promptOf true name :=
  congrArg (promptOf · name) asks

theorem promptOf_of_silent {prompts : Bool} {name : String} (silent : prompts = false) :
    promptOf prompts name = "" :=
  congrArg (promptOf · name) silent

/-- What is written for the targets of a `read` statement. -/
def promptsOf (prompts : Bool) : List Target → String
  | [] => ""
  | target :: rest => promptOf prompts target.name ++ promptsOf prompts rest

theorem promptsOf_append (prompts : Bool) (targets others : List Target) :
    promptsOf prompts (targets ++ others) =
      promptsOf prompts targets ++ promptsOf prompts others := by
  induction targets with
  | nil => rw [List.nil_append, promptsOf, String.empty_append]
  | cons target targets ih => rw [List.cons_append, promptsOf, promptsOf, ih, String.append_assoc]

/-- The targets are filled one after the other, each from the next line of the input. -/
inductive Fills : Environment → List UInt8 → List Target → Environment → List UInt8 → Prop
  | nil (env : Environment) (input : List UInt8) : Fills env input [] env input
  | cons {env next last : Environment} {input left : List UInt8} {target : Target}
      {rest : List Target} {text : String} (line : (splitLine input).1 ≠ [])
      (valid : String.fromUTF8? (splitLine input).1.toByteArray = some text)
      (stored : env.store target (.ofLine text) = .ok next)
      (others : Fills next (splitLine input).2 rest last left) :
      Fills env input (target :: rest) last left

/-- Targets that are filled behind others are filled from what these have left. -/
theorem Fills.append {env next last : Environment} {input left rest : List UInt8}
    {done targets : List Target} (first : Fills env input done next left)
    (others : Fills next left targets last rest) :
    Fills env input (done ++ targets) last rest := by
  induction first with
  | nil => exact others
  | cons line valid stored _ ih => exact .cons line valid stored (ih others)

namespace Environment

variable {env next : Environment} {name other : String} {index value : Value}

theorem eq_declare_of_assign (assigned : env.assign name value = .ok next) :
    next = env.declare name value := by
  unfold assign at assigned
  split at assigned <;> cases assigned
  rfl

theorem eq_declare_of_assignElement (assigned : env.assignElement name index value = .ok next) :
    ∃ elements, next = env.declare name elements := by
  unfold assignElement at assigned
  cases found : env.elements name with
  | error fault =>
    rw [found] at assigned
    cases assigned
  | ok elements =>
    cases placed : position name elements.length index with
    | error fault =>
      rw [found] at assigned
      simp only [bind, Except.bind, placed] at assigned
      cases assigned
    | ok place =>
      rw [found] at assigned
      simp only [bind, Except.bind, placed] at assigned
      cases assigned
      exact ⟨_, rfl⟩

theorem eq_ok_of_onLine {α : Type} {line : Nat} {result : Except RuntimeFault α} {a : α}
    (succeeded : onLine line result = .ok a) : result = .ok a := by
  cases result with
  | ok b =>
    cases succeeded
    rfl
  | error fault => cases succeeded

/-- Storing into a target gives the variable of the target a value and does nothing else. -/
theorem eq_declare_of_store {target : Target} (stored : env.store target value = .ok next) :
    ∃ stores, next = env.declare target.name stores := by
  unfold store at stored
  split at stored
  · exact ⟨value, eq_declare_of_assign (eq_ok_of_onLine stored)⟩
  · rename_i index _
    cases placed : index.eval env with
    | error e =>
      rw [placed] at stored
      cases stored
    | ok i =>
      rw [placed] at stored
      exact eq_declare_of_assignElement (eq_ok_of_onLine stored)

end Environment

/-- No other variables than those of the targets are changed. -/
theorem Fills.find?_eq {env last : Environment} {input left : List UInt8} {targets : List Target}
    (fills : Fills env input targets last left) {name : String}
    (other : ∀ target ∈ targets, name ≠ target.name) : last.find? name = env.find? name := by
  induction fills with
  | nil => rfl
  | cons _ _ stored _ ih =>
    obtain ⟨first, others⟩ := List.forall_mem_cons.1 other
    obtain ⟨value, rfl⟩ := Environment.eq_declare_of_store stored
    rw [ih others, Environment.find?_declare, if_neg first]

namespace Action

variable {world after : World} {e : RuntimeError} {line : Nat}

theorem prompt_apply (line : Nat) (name : String) (world : World) :
    prompt line name world =
      if world.prompts then (do emit line (promptOf true name); flush line : Action Unit) world
      else .ok () world := by
  show (do
    if world.prompts then
      emit line s!"Enter value for {name}: "
      flush line : Action Unit) world = _
  cases world.prompts <;> rfl

theorem flush_ok (ran : flush line world = .ok () after) : after = world := by
  rw [flush_apply] at ran
  split at ran <;> cases ran
  rfl

theorem flush_error (failed : flush line world = .error e after) : after = world := by
  rw [flush_apply] at failed
  split at failed <;> cases failed
  rfl

theorem prompt_ok {name : String} (ran : prompt line name world = .ok () after) :
    after = { world with output := world.output.add (promptOf world.prompts name) } := by
  rw [prompt_apply] at ran
  split at ran
  · rename_i prompts
    obtain ⟨_, between, written, flushed⟩ := bind_eq_ok_iff.1 ran
    rw [flush_ok flushed, emit_ok written, promptOf_of_prompts prompts]
  · rename_i silent
    cases ran
    rw [Bool.not_eq_true] at silent
    rw [promptOf_of_silent silent, Sink.add_nothing]

theorem prompt_error {name : String} (failed : prompt line name world = .error e after) :
    ∃ output, after = { world with output } ∧
      world.output.GrownBy output (promptOf world.prompts name) := by
  rw [prompt_apply] at failed
  split at failed
  · rename_i prompts
    rw [promptOf_of_prompts prompts]
    rcases bind_eq_error_iff.1 failed with failed | ⟨_, between, written, failed⟩
    · exact emit_error_grown failed
    · rw [flush_error failed, emit_ok written]
      exact ⟨_, rfl, .of_add _ _⟩
  · cases failed

/-- A line of the input is taken whether or not it can be used. -/
theorem nextLine_ok {name text : String} (ran : nextLine line name world = .ok text after) :
    (splitLine world.input).1 ≠ [] ∧
      String.fromUTF8? (splitLine world.input).1.toByteArray = some text ∧
      after = { world with input := (splitLine world.input).2 } := by
  rw [nextLine_apply] at ran
  split at ran
  · cases ran
  · rename_i valid
    split at ran
    · cases ran
    · rename_i filled
      cases ran
      exact ⟨filled, valid, rfl⟩

theorem nextLine_error {name : String} (failed : nextLine line name world = .error e after) :
    after = { world with input := (splitLine world.input).2 } := by
  rw [nextLine_apply] at failed
  split at failed
  · cases failed
    rfl
  · split at failed <;> cases failed
    rfl

theorem store_apply (target : Target) (value : Value) (world : World) :
    store target value world =
      match world.environment.store target value with
      | .ok environment => .ok () { world with environment }
      | .error e => .error e world := by
  show (do
    let environment ← ofResult (world.environment.store target value)
    modify ({ · with environment }) : Action Unit) world = _
  cases world.environment.store target value <;> rfl

theorem readTarget_ok {target : Target} (ran : readTarget line target world = .ok () after) :
    ∃ environment input, Fills world.environment world.input [target] environment input ∧
      after = { world with
        environment, input, output := world.output.add (promptOf world.prompts target.name) } := by
  obtain ⟨_, asked, prompted, ran⟩ := bind_eq_ok_iff.1 ran
  obtain rfl := prompt_ok prompted
  obtain ⟨text, taken, found, ran⟩ := bind_eq_ok_iff.1 ran
  obtain ⟨filled, valid, rfl⟩ := nextLine_ok found
  rw [store_apply] at ran
  split at ran
  · rename_i environment stored
    cases ran
    exact ⟨environment, _, .cons filled valid stored (.nil _ _), rfl⟩
  · cases ran

theorem readTarget_error {target : Target}
    (failed : readTarget line target world = .error e after) :
    ∃ input output, after = { world with input, output } ∧
      (input = world.input ∨ input = (splitLine world.input).2) ∧
      world.output.GrownBy output (promptOf world.prompts target.name) := by
  rcases bind_eq_error_iff.1 failed with failed | ⟨_, asked, prompted, failed⟩
  · obtain ⟨output, rfl, grown⟩ := prompt_error failed
    exact ⟨_, output, rfl, Or.inl rfl, grown⟩
  · obtain rfl := prompt_ok prompted
    rcases bind_eq_error_iff.1 failed with failed | ⟨text, taken, found, failed⟩
    · rw [nextLine_error failed]
      exact ⟨_, _, rfl, Or.inr rfl, .of_add _ _⟩
    · obtain ⟨_, _, rfl⟩ := nextLine_ok found
      rw [store_apply] at failed
      split at failed
      · cases failed
      · cases failed
        exact ⟨_, _, rfl, Or.inr rfl, .of_add _ _⟩

/-- Targets that are read are filled from as many lines, behind as many prompts. -/
theorem readTargets_ok {targets : List Target}
    (ran : targets.forM (readTarget line) world = .ok () after) :
    ∃ environment input, Fills world.environment world.input targets environment input ∧
      after = { world with
        environment, input, output := world.output.add (promptsOf world.prompts targets) } := by
  induction targets generalizing world with
  | nil =>
    cases ran
    refine ⟨_, _, .nil _ _, ?_⟩
    rw [promptsOf, Sink.add_nothing]
  | cons target targets ih =>
    obtain ⟨_, between, first, ran⟩ := bind_eq_ok_iff.1 ran
    obtain ⟨next, rest, filled, rfl⟩ := readTarget_ok first
    obtain ⟨last, left, others, rfl⟩ := ih ran
    refine ⟨last, left, filled.append others, ?_⟩
    rw [Sink.add_add, promptsOf]

/-- A `read` that fails has filled the targets before the failing one, has taken as many lines or
one more, and has written no more than their prompts and the one of the failing target. -/
theorem readTargets_error {targets : List Target}
    (failed : targets.forM (readTarget line) world = .error e after) :
    ∃ done target rest environment input output left, targets = done ++ target :: rest ∧
      Fills world.environment world.input done environment input ∧
      (left = input ∨ left = (splitLine input).2) ∧
      world.output.GrownBy output (promptsOf world.prompts (done ++ [target])) ∧
      after = { world with environment, input := left, output } := by
  obtain ⟨done, target, rest, between, rfl, ran, failed⟩ := forM_eq_error failed
  obtain ⟨environment, input, filled, rfl⟩ := readTargets_ok ran
  obtain ⟨left, output, rfl, taken, grown⟩ := readTarget_error failed
  refine ⟨done, target, rest, environment, input, output, left, rfl, filled, taken, ?_, rfl⟩
  rw [promptsOf_append, promptsOf, promptsOf, String.append_empty]
  exact grown.behind

end Action

end GotoLang
