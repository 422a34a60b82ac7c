import GotoLang.Proofs.FailedStep

set_option autoImplicit false

namespace GotoLang

def World.limited (world : World) (limit : Nat) : World :=
  { world with output := { world.output with limit := some limit } }

namespace World

@[simp] theorem limited_environment (world : World) (limit : Nat) :
    (world.limited limit).environment = world.environment := rfl

@[simp] theorem limited_input (world : World) (limit : Nat) :
    (world.limited limit).input = world.input := rfl

@[simp] theorem limited_prompts (world : World) (limit : Nat) :
    (world.limited limit).prompts = world.prompts := rfl

@[simp] theorem limited_memory (world : World) (limit : Nat) :
    (world.limited limit).memory = world.memory := rfl

@[simp] theorem limited_refusesFlush (world : World) (limit : Nat) :
    (world.limited limit).output.refusesFlush = world.output.refusesFlush := rfl

end World

def World.size (world : World) : Nat :=
  world.output.written.size

def mapState {ε σ α : Type} (change : σ → σ) : EStateM.Result ε σ α → EStateM.Result ε σ α
  | .ok a state => .ok a (change state)
  | .error e state => .error e (change state)

/-- The second world has the same kind of output, with no less written. -/
def World.Extends (one other : World) : Prop :=
  other.output.limit = one.output.limit ∧
    ∃ bytes, other.output.written = one.output.written ++ bytes

instance : IsPreorder World World.Extends where
  refl world := ⟨rfl, .empty, ByteArray.append_empty.symm⟩
  trans _ _ _ := by
    rintro ⟨limit, bytes, written⟩ ⟨sameLimit, more, all⟩
    refine ⟨sameLimit.trans limit, bytes ++ more, ?_⟩
    rw [all, written, ByteArray.append_assoc]

theorem World.Extends.allows : World.Allows World.Extends where
  environment world _ := ⟨rfl, .empty, ByteArray.append_empty.symm⟩
  input world _ := ⟨rfl, .empty, ByteArray.append_empty.symm⟩
  output world bytes := by
    rcases world.output.write_eq bytes with complete | ⟨room, _, stopped⟩
    · rw [complete]
      exact ⟨rfl, bytes, rfl⟩
    · rw [stopped]
      exact ⟨rfl, bytes.extract 0 room, rfl⟩

theorem World.Extends.size_le {one other : World} (more : one.Extends other) :
    one.size ≤ other.size := by
  obtain ⟨_, bytes, written⟩ := more
  simp only [size, written, ByteArray.size_append]
  omega

/-- What is written later does not change the first bytes. -/
theorem World.Extends.extract_eq {one other : World} (more : one.Extends other) {limit : Nat}
    (enough : limit ≤ one.size) :
    other.output.written.extract 0 limit = one.output.written.extract 0 limit := by
  obtain ⟨_, bytes, written⟩ := more
  simp only [size] at enough
  rw [written, ByteArray.extract_append, Nat.sub_eq_zero_of_le enough, Nat.zero_sub]
  have nothing : bytes.extract 0 0 = ByteArray.empty :=
    ByteArray.extract_eq_empty_iff.2 (Nat.le_of_eq (Nat.min_eq_left (Nat.zero_le _)))
  rw [nothing, ByteArray.append_empty]

namespace Action

variable {α β : Type} {limit line : Nat}

/-- An action stands a limited output. If what it writes fits, it does the same as without the
limit. Otherwise it is stopped with an error for the line, behind the last byte that fits, in a
world that is related to the one before as `cut` says. -/
structure Cuts (limit line : Nat) (cut : World → World → Prop) (action : Action α) : Prop where
  grows : action.Within World.Extends
  fits : ∀ world, world.output.limit = none → (stateAfter (action world)).size ≤ limit →
    action (world.limited limit) = mapState (·.limited limit) (action world)
  stops : ∀ world, world.output.limit = none → world.size ≤ limit →
    limit < (stateAfter (action world)).size →
    ∃ last, action (world.limited limit) = .error ⟨.console .writeLimit, line⟩ last ∧
      last.output.written = (stateAfter (action world)).output.written.extract 0 limit ∧
      cut world last

/-- An action that writes nothing, and to which the output is nothing. -/
theorem Cuts.of_silent {cut : World → World → Prop} {action : Action α}
    (grows : action.Within World.Extends)
    (silent : ∀ world, (stateAfter (action world)).size = world.size)
    (blind : ∀ world, action (world.limited limit) = mapState (·.limited limit) (action world)) :
    action.Cuts limit line cut where
  grows := grows
  fits world _ _ := blind world
  stops world _ before exceeds := by
    rw [silent] at exceeds
    omega

theorem Cuts.bind {first second cut : World → World → Prop} {action : Action α}
    {next : α → Action β} (one : action.Cuts limit line first)
    (rest : ∀ a, (next a).Cuts limit line second)
    (early : ∀ world last, first world last → cut world last)
    (late : ∀ world a between last, action world = .ok a between → second between last →
      cut world last) : (action >>= next).Cuts limit line cut where
  grows := .bind one.grows fun a => (rest a).grows
  fits world unlimited small := by
    have grown := one.grows world
    cases ran : action world with
    | ok a between =>
      have later := (rest a).grows between
      simp only [Bind.bind, EStateM.bind, ran] at small ⊢
      rw [ran] at grown
      have same := one.fits world unlimited (by rw [ran]; exact Nat.le_trans later.size_le small)
      rw [same, ran]
      exact (rest a).fits between (grown.1.trans unlimited) small
    | error e between =>
      simp only [Bind.bind, EStateM.bind, ran] at small ⊢
      rw [one.fits world unlimited (by rw [ran]; exact small), ran]
      rfl
  stops world unlimited before exceeds := by
    have grown := one.grows world
    cases ran : action world with
    | ok a between =>
      have later := (rest a).grows between
      simp only [Bind.bind, EStateM.bind, ran] at exceeds ⊢
      rw [ran] at grown
      -- The first action is the one that is stopped, or the rest is stopped behind it.
      by_cases room : between.size ≤ limit
      · have same := one.fits world unlimited (by rw [ran]; exact room)
        rw [same, ran]
        obtain ⟨last, stopped, written, related⟩ :=
          (rest a).stops between (grown.1.trans unlimited) room exceeds
        exact ⟨last, stopped, written, late world a between last ran related⟩
      · obtain ⟨last, stopped, written, related⟩ :=
          one.stops world unlimited before (by rw [ran]; exact Nat.lt_of_not_le room)
        rw [stopped]
        refine ⟨last, rfl, ?_, early world last related⟩
        rw [written, ran]
        exact (later.extract_eq (Nat.le_of_lt (Nat.lt_of_not_le room))).symm
    | error e between =>
      simp only [Bind.bind, EStateM.bind, ran] at exceeds ⊢
      obtain ⟨last, stopped, written, related⟩ :=
        one.stops world unlimited before (by rw [ran]; exact exceeds)
      rw [stopped]
      refine ⟨last, rfl, ?_, early world last related⟩
      rw [written, ran]
      rfl

theorem Cuts.bind_silent {cut : World → World → Prop} {action : Action α} {next : α → Action β}
    (one : action.Cuts limit line cut) (rest : ∀ a, (next a).Cuts limit line fun _ _ => False) :
    (action >>= next).Cuts limit line cut :=
  .bind one rest (fun _ _ related => related)
    (fun _ _ _ _ _ impossible => impossible.elim)

theorem Cuts.pure {cut : World → World → Prop} (a : α) :
    Cuts limit line cut (Pure.pure a : Action α) :=
  .of_silent (.pure a) (fun _ => rfl) (fun _ => rfl)

/-- An action that only looks at the world writes nothing. -/
theorem Cuts.look {cut : World → World → Prop} {seen : World → Except RuntimeError α}
    (same : ∀ world, seen (world.limited limit) = seen world) :
    Cuts limit line cut (get >>= fun world => Action.ofResult (seen world)) := by
  have looked : ∀ world : World, (get >>= fun world => Action.ofResult (seen world)) world =
      Action.ofResult (seen world) world := fun _ => rfl
  refine .of_silent (.bind_get fun world => Within.ofResult (seen world) world) ?_ ?_
  · intro world
    rw [looked]
    cases seen world <;> rfl
  · intro world
    rw [looked, looked, same]
    cases seen world <;> rfl

theorem Cuts.evaluate {cut : World → World → Prop} (e : Expr) :
    (evaluate e).Cuts limit line cut := by
  refine .look fun world => ?_
  rw [World.limited_environment]

theorem Cuts.store {cut : World → World → Prop} (target : Target) (value : Value) :
    (store target value).Cuts limit line cut := by
  refine .of_silent (.store World.Extends.allows target value) ?_ ?_
  · intro world
    rw [store_apply]
    cases world.environment.store target value <;> rfl
  · intro world
    rw [store_apply, store_apply, World.limited_environment]
    cases world.environment.store target value <;> rfl

theorem Cuts.initial {cut : World → World → Prop} (size : Option Expr) (type : ElementType)
    (reported : Nat) : (initial size type reported).Cuts limit line cut := by
  cases size with
  | none => exact .pure type.initial
  | some size =>
    refine .bind_silent (.evaluate size) fun length => .look fun world => ?_
    rw [World.limited_memory]

theorem Cuts.nextLine {cut : World → World → Prop} (reported : Nat) (name : String) :
    (nextLine reported name).Cuts limit line cut := by
  refine .of_silent (.nextLine World.Extends.allows reported name) ?_ ?_
  · intro world
    rw [nextLine_apply]
    split
    · rfl
    · split <;> rfl
  · intro world
    rw [nextLine_apply, nextLine_apply, World.limited_input]
    cases String.fromUTF8? (splitLine world.input).1.toByteArray with
    | none => rfl
    | some text =>
      by_cases nothing : (splitLine world.input).1 = []
      · simp only [nothing, if_true]
        rfl
      · simp only [nothing, if_false]
        rfl

end Action

namespace Sink

variable {sink : Sink}

theorem write_unlimited (unlimited : sink.limit = none) (bytes : ByteArray) :
    sink.write bytes = ({ sink with written := sink.written ++ bytes }, true) := by
  rw [write, room?, unlimited]
  rfl

/-- All of the bytes are their first bytes if there are no more. -/
theorem extract_of_size_le {bytes : ByteArray} {limit : Nat} (few : bytes.size ≤ limit) :
    bytes.extract 0 limit = bytes := by
  ext1
  simp only [ByteArray.data_extract, Array.extract_eq_self_iff]
  exact Or.inr ⟨trivial, few⟩

/-- A limited output takes the first bytes of all that are written. -/
theorem write_limited (sink : Sink) {limit : Nat} (before : sink.written.size ≤ limit)
    (bytes : ByteArray) :
    { sink with limit := some limit }.write bytes =
      ({ sink with
          written := (sink.written ++ bytes).extract 0 limit
          limit := some limit },
        decide ((sink.written ++ bytes).size ≤ limit)) := by
  simp only [write, room?, Option.map_some, ByteArray.size_append]
  rw [ByteArray.extract_append, extract_of_size_le before, Nat.zero_sub]
  by_cases fits : bytes.size ≤ limit - sink.written.size
  · have all : sink.written.size + bytes.size ≤ limit := by omega
    rw [if_pos fits, decide_eq_true all, extract_of_size_le fits]
  · have exceeds : ¬ sink.written.size + bytes.size ≤ limit := by omega
    rw [if_neg fits, decide_eq_false exceeds]

end Sink

def World.SameData (one other : World) : Prop :=
  other.environment = one.environment ∧ other.input = one.input

instance : IsPreorder World World.SameData where
  refl _ := ⟨rfl, rfl⟩
  trans _ _ _ first second := ⟨second.1.trans first.1, second.2.trans first.2⟩

namespace Action

variable {limit line : Nat}

theorem emit_unlimited {world : World} (unlimited : world.output.limit = none) (line : Nat)
    (text : String) :
    emit line text world = .ok () { world with output := world.output.add text } := by
  rw [emit_apply, Sink.write_unlimited unlimited]
  rfl

theorem emit_limited {world : World} (before : world.size ≤ limit) (line : Nat) (text : String) :
    emit line text (world.limited limit) =
      let output : Sink := { world.output with
        written := (world.output.add text).written.extract 0 limit
        limit := some limit }
      if (world.output.add text).written.size ≤ limit then .ok () { world with output }
      else .error ⟨.console .writeLimit, line⟩ { world with output } := by
  rw [emit_apply]
  simp only [World.limited, Sink.write_limited world.output before, decide_eq_true_eq]
  rfl

theorem Cuts.emit (text : String) : (emit line text).Cuts limit line World.SameData where
  grows := .emit World.Extends.allows line text
  fits world unlimited small := by
    rw [emit_unlimited unlimited] at small ⊢
    have before : world.size ≤ limit := by
      refine Nat.le_trans ?_ small
      simp only [World.size, stateAfter, Sink.add, ByteArray.size_append]
      omega
    rw [emit_limited before]
    simp only [stateAfter, World.size] at small
    simp only [if_pos small, Sink.extract_of_size_le small]
    rfl
  stops world unlimited before exceeds := by
    rw [emit_unlimited unlimited] at exceeds ⊢
    rw [emit_limited before]
    simp only [stateAfter, World.size] at exceeds
    simp only [if_neg (Nat.not_le_of_lt exceeds)]
    exact ⟨_, rfl, rfl, rfl, rfl⟩

theorem Cuts.flush {cut : World → World → Prop} (reported : Nat) :
    (flush reported).Cuts limit line cut := by
  refine .of_silent (.flush reported) ?_ ?_
  · intro world
    rw [flush_apply]
    split <;> rfl
  · intro world
    rw [flush_apply, flush_apply, World.limited_refusesFlush]
    split <;> rfl

theorem Cuts.writeItem (item : WriteItem) :
    (writeItem line item).Cuts limit line World.SameData where
  grows := .writeItem World.Extends.allows line item
  fits world unlimited small := by
    rw [writeItem_apply] at small ⊢
    rw [writeItem_apply, World.limited_environment]
    cases written : item.text world.environment with
    | ok text =>
      rw [written] at small
      exact (Cuts.emit text).fits world unlimited small
    | error e => rfl
  stops world unlimited before exceeds := by
    rw [writeItem_apply] at exceeds ⊢
    rw [writeItem_apply, World.limited_environment]
    cases written : item.text world.environment with
    | ok text =>
      rw [written] at exceeds
      exact (Cuts.emit text).stops world unlimited before exceeds
    | error e =>
      rw [written] at exceeds
      exact absurd exceeds (Nat.not_lt_of_le before)

theorem Cuts.prompt (name : String) : (prompt line name).Cuts limit line World.SameData := by
  have asks : (do Action.emit line (promptOf true name); Action.flush line : Action Unit).Cuts
      limit line World.SameData :=
    .bind_silent (.emit _) fun _ => .flush line
  refine ⟨.prompt World.Extends.allows line name, ?_, ?_⟩
  · intro world unlimited small
    rw [prompt_apply] at small ⊢
    rw [prompt_apply, World.limited_prompts]
    by_cases prompts : world.prompts
    · rw [if_pos prompts] at small
      rw [if_pos prompts, if_pos prompts]
      exact asks.fits world unlimited small
    · rw [if_neg prompts, if_neg prompts]
      rfl
  · intro world unlimited before exceeds
    rw [prompt_apply] at exceeds ⊢
    rw [prompt_apply, World.limited_prompts]
    by_cases prompts : world.prompts
    · rw [if_pos prompts] at exceeds
      rw [if_pos prompts, if_pos prompts]
      exact asks.stops world unlimited before exceeds
    · rw [if_neg prompts] at exceeds
      exact absurd exceeds (Nat.not_lt_of_le before)

theorem Cuts.readTarget (target : Target) :
    (readTarget line target).Cuts limit line World.SameData :=
  .bind_silent (.prompt target.name)
    fun _ => .bind_silent (.nextLine line target.name) fun text => .store target (.ofLine text)

end Action

namespace Action

variable {limit line : Nat}

end Action

namespace Statement

variable {s : Statement} {world : World} {limit : Nat}

end Statement

end GotoLang
