import GotoLang.Proofs.Execution

/- A machine that can follow every step of another one has the same behaviour. It may take many
steps for one, and it may take none, but it must not stand still forever: a measure decreases
whenever it takes none. -/

set_option autoImplicit false

namespace GotoLang

/-- How a run ends: its result and the world that it leaves. -/
structure Conclusion where
  result : Except RuntimeError Unit
  world : World

inductive Stage where
  | running (world : World)
  | ended (conclusion : Conclusion)

def Stage.result? : Stage → Option (Except RuntimeError Unit)
  | .running _ => none
  | .ended last => some last.result

theorem Stage.result?_eq_some_iff {stage : Stage} {result : Except RuntimeError Unit} :
    stage.result? = some result ↔ ∃ last, stage = .ended last ∧ last.result = result := by
  cases stage with
  | running world => simp only [result?, reduceCtorEq, false_and, exists_false]
  | ended last => simp only [result?, Option.some.injEq, Stage.ended.injEq, exists_eq_left']

/-- An operation with the world in which it is performed. -/
structure Event where
  world : World
  operation : Operation

/-- What can be told of a machine from outside: for each number of steps how far its run has come
and what has happened in it. -/
structure Behaviour where
  stage : Nat → Stage
  events : Nat → List Event

namespace Behaviour

/-- Two machines perform the same operations in the same order, each in the same world, and pass the
same worlds. One ends if and only if the other one does, with the same result and in the same
world. -/
structure Agrees (one other : Behaviour) : Prop where
  performed : ∀ events, (∃ n, events <+: one.events n) ↔ ∃ n, events <+: other.events n
  passed : ∀ world, (∃ n, one.stage n = .running world) ↔ ∃ n, other.stage n = .running world
  ended : ∀ conclusion,
    (∃ n, one.stage n = .ended conclusion) ↔ ∃ n, other.stage n = .ended conclusion
  endless : (∀ n, ∃ world, one.stage n = .running world) ↔
    ∀ n, ∃ world, other.stage n = .running world

/-- All that the first machine shows, the second one shows at some time. -/
structure ShownBy (one other : Behaviour) : Prop where
  events : ∀ n, ∃ m, one.events n <+: other.events m
  stage : ∀ n, ∃ m, other.stage m = one.stage n

variable {one other : Behaviour}

theorem ShownBy.performed (shown : one.ShownBy other) {events : List Event}
    (performs : ∃ n, events <+: one.events n) : ∃ n, events <+: other.events n := by
  obtain ⟨n, some⟩ := performs
  obtain ⟨m, all⟩ := shown.events n
  exact ⟨m, some.trans all⟩

theorem ShownBy.reached (shown : one.ShownBy other) {stage : Stage}
    (reaches : ∃ n, one.stage n = stage) : ∃ n, other.stage n = stage := by
  obtain ⟨n, rfl⟩ := reaches
  exact shown.stage n

/-- A run that does not end is shown by one that does not end. -/
theorem ShownBy.endless (shown : one.ShownBy other)
    (endless : ∀ n, ∃ world, other.stage n = .running world) (n : Nat) :
    ∃ world, one.stage n = .running world := by
  obtain ⟨m, same⟩ := shown.stage n
  obtain ⟨world, running⟩ := endless m
  exact ⟨world, same ▸ running⟩

theorem Agrees.of_shownBy (shown : one.ShownBy other) (back : other.ShownBy one) :
    one.Agrees other where
  performed _ := ⟨shown.performed, back.performed⟩
  passed _ := ⟨shown.reached, back.reached⟩
  ended _ := ⟨shown.reached, back.reached⟩
  endless := ⟨back.endless, shown.endless⟩

namespace Agrees

variable {third : Behaviour}

theorem refl (one : Behaviour) : one.Agrees one :=
  ⟨fun _ => Iff.rfl, fun _ => Iff.rfl, fun _ => Iff.rfl, Iff.rfl⟩

theorem symm (agrees : one.Agrees other) : other.Agrees one :=
  ⟨fun events => (agrees.performed events).symm, fun world => (agrees.passed world).symm,
    fun conclusion => (agrees.ended conclusion).symm, agrees.endless.symm⟩

theorem trans (first : one.Agrees other) (second : other.Agrees third) : one.Agrees third :=
  ⟨fun events => (first.performed events).trans (second.performed events),
    fun world => (first.passed world).trans (second.passed world),
    fun conclusion => (first.ended conclusion).trans (second.ended conclusion),
    first.endless.trans second.endless⟩

end Agrees

end Behaviour

/-- A machine that acts on a world step by step. A step leads to a state or to the end. -/
structure Automaton (σ : Type) where
  step : σ → Except Conclusion σ
  operations : σ → List Operation
  world : σ → World

namespace Automaton

variable {σ τ : Type}

def stage (S : Automaton σ) : Nat → σ → Stage
  | 0, s => .running (S.world s)
  | n + 1, s =>
    match S.step s with
    | .ok next => S.stage n next
    | .error conclusion => .ended conclusion

/-- What happens in the next step. -/
def events (S : Automaton σ) (s : σ) : List Event :=
  (S.operations s).map (Event.mk (S.world s))

def trace (S : Automaton σ) : Nat → σ → List Event
  | 0, _ => []
  | n + 1, s => S.events s ++
    match S.step s with
    | .ok next => S.trace n next
    | .error _ => []

theorem trace_one (S : Automaton σ) (s : σ) : S.trace 1 s = S.events s := by
  rw [trace]
  cases S.step s <;> exact List.append_nil _

/-- A run that has ended stays as it is. -/
theorem stage_add_of_ended {S : Automaton σ} {n : Nat} {s : σ} {conclusion : Conclusion}
    (ended : S.stage n s = .ended conclusion) (m : Nat) :
    S.stage (n + m) s = .ended conclusion := by
  induction n generalizing s with
  | zero => cases ended
  | succ n ih =>
    rw [Nat.succ_add, stage]
    rw [stage] at ended
    cases taken : S.step s with
    | ok next =>
      rw [taken] at ended
      exact ih ended
    | error last =>
      rw [taken] at ended
      exact ended

/-- A run ends in one way. -/
theorem ended_unique {S : Automaton σ} {n m : Nat} {s : σ} {one other : Conclusion}
    (first : S.stage n s = .ended one) (second : S.stage m s = .ended other) : one = other := by
  have later := stage_add_of_ended first m
  rw [Nat.add_comm, stage_add_of_ended second n] at later
  exact (Stage.ended.inj later).symm

def behaviour (S : Automaton σ) (s : σ) : Behaviour where
  stage n := S.stage n s
  events n := S.trace n s

/-- A number of steps with their operations. All of them begin in the same world. -/
inductive Steps (S : Automaton σ) (world : World) : Nat → σ → List Operation → σ → Prop
  | refl (s : σ) : Steps S world 0 s [] s
  | head {n : Nat} {s next last : σ} {operations : List Operation} (begins : S.world s = world)
      (goes : S.step s = .ok next) (rest : Steps S world n next operations last) :
      Steps S world (n + 1) s (S.operations s ++ operations) last

/-- Steps that begin in one world and lead to the end of the run. -/
def Ends (S : Automaton σ) (world : World) (s : σ) (operations : List Operation)
    (conclusion : Conclusion) : Prop :=
  ∃ n before last, S.Steps world n s before last ∧ S.world last = world ∧
    before ++ S.operations last = operations ∧ S.step last = .error conclusion

variable {S : Automaton σ} {world : World} {n : Nat} {s t u : σ} {first second : List Operation}

theorem Steps.one (begins : S.world s = world) (goes : S.step s = .ok t) :
    S.Steps world 1 s (S.operations s) t := by
  simpa only [List.append_nil] using Steps.head begins goes (.refl t)

theorem Steps.trans {m : Nat} (steps : S.Steps world n s first t)
    (others : S.Steps world m t second u) : S.Steps world (n + m) s (first ++ second) u := by
  induction steps with
  | refl s => simpa only [Nat.zero_add, List.nil_append] using others
  | head begins goes _ ih =>
    rw [Nat.succ_add_eq_add_succ, List.append_assoc]
    exact .head begins goes (ih others)

theorem Ends.of_steps {conclusion : Conclusion} (steps : S.Steps world n s first t)
    (ends : S.Ends world t second conclusion) : S.Ends world s (first ++ second) conclusion := by
  obtain ⟨m, before, last, others, same, rfl, stops⟩ := ends
  exact ⟨n + m, first ++ before, last, steps.trans others, same, List.append_assoc .., stops⟩

theorem Steps.trace_add (steps : S.Steps world n s first t) (m : Nat) :
    S.trace (n + m) s = first.map (Event.mk world) ++ S.trace m t := by
  induction steps with
  | refl s => rw [Nat.zero_add, List.map_nil, List.nil_append]
  | head begins goes _ ih =>
    rw [Nat.succ_add, trace, goes, events, begins, List.map_append, List.append_assoc, ← ih]

theorem Steps.stage_add (steps : S.Steps world n s first t) (m : Nat) :
    S.stage (n + m) s = S.stage m t := by
  induction steps with
  | refl s => rw [Nat.zero_add]
  | head _ goes _ ih => rw [Nat.succ_add, stage, goes, ← ih]

/-- A run that is amid such steps has performed some of their operations and left the world as it
was. -/
theorem Steps.amid (steps : S.Steps world n s first t) {m : Nat} (early : m ≤ n)
    (begins : m = n → S.world t = world) :
    S.trace m s <+: first.map (Event.mk world) ∧ S.stage m s = .running world := by
  induction steps generalizing m with
  | refl s =>
    obtain rfl := Nat.le_zero.1 early
    exact ⟨List.nil_prefix, congrArg Stage.running (begins rfl)⟩
  | head here goes _ ih =>
    cases m with
    | zero => exact ⟨List.nil_prefix, congrArg Stage.running here⟩
    | succ m =>
      obtain ⟨some, same⟩ := ih (by omega) fun last => begins (congrArg Nat.succ last)
      simp only [trace, stage, goes, events, here, List.map_append]
      exact ⟨(List.prefix_append_right_inj _).2 some, same⟩

/-- A run that comes to its end behind such steps stays there. -/
theorem Steps.stop (steps : S.Steps world n s first t) (begins : S.world t = world)
    {conclusion : Conclusion} (stops : S.step t = .error conclusion) (m : Nat) :
    S.trace (n + (m + 1)) s = (first ++ S.operations t).map (Event.mk world) ∧
      S.stage (n + (m + 1)) s = .ended conclusion := by
  rw [steps.trace_add, steps.stage_add]
  simp only [trace, stage, stops, events, begins, List.map_append, List.append_nil, and_self]

end Automaton

/-- How a machine follows every step of another one. -/
structure Simulation {σ τ : Type} (S : Automaton σ) (T : Automaton τ) where
  related : σ → τ → Prop
  measure : σ → Nat
  world : ∀ {s t}, related s t → T.world t = S.world s
  goes : ∀ {s s' t}, related s t → S.step s = .ok s' →
    ∃ n t', T.Steps (S.world s) n t (S.operations s) t' ∧ related s' t' ∧
      (n = 0 → measure s' < measure s)
  ends : ∀ {s t conclusion}, related s t → S.step s = .error conclusion →
    T.Ends (S.world s) t (S.operations s) conclusion

namespace Simulation

variable {σ τ : Type} {S : Automaton σ} {T : Automaton τ} (simulation : Simulation S T)

/-- However many steps the machine takes, the one that follows it gets as far. -/
theorem follows (n : Nat) {s : σ} {t : τ} (related : simulation.related s t) :
    ∃ m, T.trace m t = S.trace n s ∧ T.stage m t = S.stage n s := by
  induction n generalizing s t with
  | zero => exact ⟨0, rfl, congrArg Stage.running (simulation.world related)⟩
  | succ n ih =>
    cases taken : S.step s with
    | ok s' =>
      obtain ⟨k, t', steps, related', _⟩ := simulation.goes related taken
      obtain ⟨m, trace, stage⟩ := ih related'
      refine ⟨k + m, ?_, ?_⟩
      · rw [steps.trace_add, trace, Automaton.trace, taken, Automaton.events]
      · rw [steps.stage_add, stage, Automaton.stage, taken]
    | error conclusion =>
      obtain ⟨k, before, last, steps, begins, all, stops⟩ := simulation.ends related taken
      obtain ⟨trace, stage⟩ := steps.stop begins stops 0
      refine ⟨k + (0 + 1), ?_, ?_⟩
      · rw [trace, all, Automaton.trace, taken, List.append_nil, Automaton.events]
      · rw [stage, Automaton.stage, taken]

/-- However many steps the machine that follows takes, the other one gets there. The induction is
on these steps, and on the measure as long as there are none. -/
theorem followed (m : Nat) {s : σ} {t : τ} (related : simulation.related s t) :
    (∃ n, T.trace m t <+: S.trace n s) ∧ ∃ n, S.stage n s = T.stage m t := by
  have first : S.trace 1 s = (S.operations s).map (Event.mk (S.world s)) := S.trace_one s
  cases taken : S.step s with
  | ok s' =>
    obtain ⟨k, t', steps, related', stands⟩ := simulation.goes related taken
    by_cases early : m < k
    · obtain ⟨some, running⟩ := steps.amid (Nat.le_of_lt early) fun last => by omega
      exact ⟨⟨1, first ▸ some⟩, ⟨0, running.symm⟩⟩
    · obtain ⟨j, split⟩ := Nat.exists_eq_add_of_le (Nat.not_lt.1 early)
      have smaller : j < m ∨ j = m ∧ simulation.measure s' < simulation.measure s := by omega
      obtain ⟨⟨n, some⟩, ⟨n', stage⟩⟩ := followed j related'
      rw [split, steps.trace_add, steps.stage_add]
      refine ⟨⟨n + 1, ?_⟩, ⟨n' + 1, ?_⟩⟩
      · rw [Automaton.trace, taken, Automaton.events]
        exact (List.prefix_append_right_inj _).2 some
      · rw [Automaton.stage, taken]
        exact stage
  | error conclusion =>
    obtain ⟨k, before, last, steps, begins, all, stops⟩ := simulation.ends related taken
    by_cases early : m ≤ k
    · obtain ⟨some, running⟩ := steps.amid early fun _ => begins
      rw [← all, List.map_append] at first
      refine ⟨⟨1, ?_⟩, ⟨0, running.symm⟩⟩
      rw [first]
      exact some.trans (List.prefix_append _ _)
    · obtain ⟨j, rfl⟩ := Nat.exists_eq_add_of_lt (Nat.not_le.1 early)
      obtain ⟨trace, stage⟩ := steps.stop begins stops j
      refine ⟨⟨1, [], ?_⟩, ⟨1, ?_⟩⟩
      · rw [List.append_nil, Nat.add_assoc, trace, all, first]
      · rw [Nat.add_assoc, stage, Automaton.stage, taken]
termination_by (m, simulation.measure s)
decreasing_by
  rcases smaller with fewer | ⟨rfl, less⟩
  · exact Prod.Lex.left _ _ fewer
  · exact Prod.Lex.right _ less

/-- A machine that follows every step of another one agrees with it. -/
theorem agrees {s : σ} {t : τ} (related : simulation.related s t) :
    (S.behaviour s).Agrees (T.behaviour t) := by
  refine .of_shownBy ⟨fun n => ?_, fun n => ?_⟩ ⟨fun n => ?_, fun n => ?_⟩
  · obtain ⟨m, trace, _⟩ := simulation.follows n related
    refine ⟨m, [], ?_⟩
    rw [List.append_nil]
    exact trace.symm
  · obtain ⟨m, _, stage⟩ := simulation.follows n related
    exact ⟨m, stage⟩
  · exact (simulation.followed n related).1
  · exact (simulation.followed n related).2

end Simulation

end GotoLang
