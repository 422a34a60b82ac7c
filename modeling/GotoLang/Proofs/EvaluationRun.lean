import GotoLang.Proofs.EngineBehaviour
import GotoLang.Proofs.EnginePath
import GotoLang.Proofs.Evaluation

set_option autoImplicit false

namespace GotoLang

namespace Engine

def Leads (engine other : Engine) : Prop :=
  ∃ n, ∀ k, engine.runFor (n + k) = other.runFor k

def EndsWith (engine : Engine) (last : Conclusion) : Prop :=
  ∃ n, (engine.runFor n).stage = .ended last

variable {engine next other : Engine} {last : Conclusion}

theorem Leads.refl (engine : Engine) : engine.Leads engine :=
  ⟨0, fun k => by rw [Nat.zero_add]⟩

theorem Leads.head (goes : engine.step = .ok true next) (rest : next.Leads other) :
    engine.Leads other := by
  obtain ⟨n, same⟩ := rest
  refine ⟨n + 1, fun k => ?_⟩
  rw [Nat.add_right_comm, runFor, goes]
  exact same k

theorem Leads.step (goes : engine.step = .ok true next) : engine.Leads next :=
  .head goes (.refl next)

theorem Leads.trans (leads : engine.Leads next) (rest : next.Leads other) : engine.Leads other := by
  obtain ⟨n, same⟩ := leads
  obtain ⟨m, others⟩ := rest
  refine ⟨n + m, fun k => ?_⟩
  rw [Nat.add_assoc, same, others]

theorem Leads.endsWith (leads : engine.Leads next) (ends : next.EndsWith last) :
    engine.EndsWith last := by
  obtain ⟨n, same⟩ := leads
  obtain ⟨m, ended⟩ := ends
  exact ⟨n + m, same m ▸ ended⟩

theorem EndsWith.of_error {e : RuntimeError} (fails : engine.step = .error e other) :
    engine.EndsWith ⟨.error e, other.world⟩ := by
  refine ⟨1, ?_⟩
  rw [runFor, fails]
  rfl

/-- The part of a run that belongs to a task is over: the engine stands at a position without a
jump, or the whole run has ended. -/
def Settles (engine : Engine) (target : Position) (last : Conclusion) : Prop :=
  match last.result with
  | .ok _ => ∃ line, engine.Leads ⟨engine.labels, target, none, last.world, line⟩
  | .error _ => engine.EndsWith last

variable {target : Position}

theorem Settles.of_leads (leads : engine.Leads next) (labels : next.labels = engine.labels)
    (settles : next.Settles target last) : engine.Settles target last := by
  obtain ⟨result, world⟩ := last
  cases result with
  | ok _ =>
    obtain ⟨line, others⟩ := settles
    exact ⟨line, labels ▸ leads.trans others⟩
  | error e => exact leads.endsWith settles

/-- Behind the last statement of a block the engine goes on outside. -/
theorem Settles.close {inner : Frame} {outer : Position}
    (settles : engine.Settles (inner :: outer) last) (atEnd : inner.current? = none)
    (isBlock : inner.isLoop = false) : engine.Settles (advance outer) last := by
  obtain ⟨result, world⟩ := last
  cases result with
  | ok _ =>
    obtain ⟨line, leads⟩ := settles
    have closes : step ⟨engine.labels, inner :: outer, none, world, line⟩ =
        .ok true ⟨engine.labels, advance outer, none, world, line⟩ := by
      simp only [step, atEnd, isBlock, Bool.false_eq_true, if_false]
    exact ⟨line, leads.trans (.step closes)⟩
  | error e => exact settles

/-- Behind the last statement of a program the run ends. -/
theorem Settles.endsWith (settles : engine.Settles [] last)
    (flushes : ∀ size, last.world.output.failFlush size = false) : engine.EndsWith last := by
  obtain ⟨result, world⟩ := last
  cases result with
  | ok _ =>
    obtain ⟨line, leads⟩ := settles
    let halted : Engine := ⟨engine.labels, [], none, world, line⟩
    have finished : halted.finish = .ok () halted := finish_of_flushes flushes
    have ended : (halted.runFor 1).stage = .ended ⟨.ok (), world⟩ := by
      simp only [runFor, show halted.step = .ok false halted from rfl, finished]
      rfl
    exact leads.endsWith ⟨1, ended⟩
  | error e => exact settles

/-- How the engine carries out a task: a statement that it executes, the statements that are left in
its innermost sequence, or a loop that it has entered. -/
def Follows (labels : Labels) : Task → World → Conclusion → Prop
  | .single s, world, last => ∀ (frame : Frame) (outer : Position) (line : Nat),
    match s.execute world with
    | .ok flow after =>
      (follow ⟨labels, frame :: outer, none, after, line⟩ flow).Settles (frame.next :: outer) last
    | .error e after => last = ⟨.error e, after⟩
  | .sequence body, world, last => ∀ (frame : Frame) (outer : Position) (line : Nat),
    frame.statements.drop frame.cursor = body →
      Settles ⟨labels, frame :: outer, none, world, line⟩
        (⟨frame.statements, frame.cursor + body.length, frame.isLoop⟩ :: outer) last
  | .again body, world, last => ∀ (outer target : Position) (line : Nat),
    Settles ⟨labels, ⟨body, 0, true⟩ :: outer, none, world, line⟩ target last

section

variable {labels : Labels} {s : Statement} {body rest : List Statement} {world after : World}

theorem labels_follow (engine : Engine) (flow : Flow) :
    (engine.follow flow).labels = engine.labels := by
  cases flow <;> rfl

theorem current?_of_drop {frame : Frame} (left : frame.statements.drop frame.cursor = s :: rest) :
    frame.current? = some s ∧ frame.next.statements.drop frame.next.cursor = rest := by
  have here : frame.current? = some s := by
    rw [Frame.current?, ← List.head?_drop, left, List.head?_cons]
  refine ⟨here, ?_⟩
  rw [Frame.drop_cursor here] at left
  exact (List.cons.inj left).2

/-- The engine carries out a statement that it stands at. -/
theorem Follows.settles {frame : Frame} {outer : Position} {line : Nat}
    (follows : Follows labels (.single s) world last) (here : frame.current? = some s) :
    Settles ⟨labels, frame :: outer, none, world, line⟩ (frame.next :: outer) last := by
  have carried := follows frame outer s.line
  cases executed : s.execute world with
  | ok flow after =>
    have goes : step ⟨labels, frame :: outer, none, world, line⟩ =
        .ok true (follow ⟨labels, frame :: outer, none, after, s.line⟩ flow) := by
      simp only [step, here, perform, executed]
    rw [executed] at carried
    exact .of_leads (.step goes) (labels_follow _ _) carried
  | error e after =>
    have fails : step ⟨labels, frame :: outer, none, world, line⟩ =
        .error e ⟨labels, frame :: outer, none, after, s.line⟩ := by
      simp only [step, here, perform, executed]
    rw [executed] at carried
    subst carried
    exact EndsWith.of_error fails

theorem Follows.act {effect : Effect} (acts : s.effect? = some effect) :
    Follows labels (.single s) world (.ofResult (effect.run world)) := by
  intro frame outer line
  rw [Statement.execute_of_effect? acts]
  cases ran : effect.run world with
  | ok _ after =>
    simp only [bind, EStateM.bind, ran]
    exact ⟨line, .refl _⟩
  | error e after =>
    simp only [bind, EStateM.bind, ran]
    rfl

theorem Follows.block {line : Nat} (inner : Follows labels (.sequence body) world last) :
    Follows labels (.single (.block body line)) world last := by
  intro frame outer line
  have inside := inner ⟨body, 0, false⟩ (frame :: outer) line rfl
  have atEnd : (⟨body, 0 + body.length, false⟩ : Frame).current? = none := by
    simp only [Frame.current?, Nat.zero_add, List.getElem?_eq_none_iff, Nat.le_refl]
  exact inside.close atEnd rfl

theorem Follows.cons {between : World}
    (first : Follows labels (.single s) world ⟨.ok (), between⟩)
    (others : Follows labels (.sequence rest) between last) :
    Follows labels (.sequence (s :: rest)) world last := by
  intro frame outer line left
  obtain ⟨here, left⟩ := current?_of_drop left
  obtain ⟨line, leads⟩ : Settles ⟨labels, frame :: outer, none, world, line⟩ (frame.next :: outer)
    ⟨.ok (), between⟩ := first.settles here
  have settles := others frame.next outer line left
  simp only [Frame.next, Nat.add_assoc, Nat.add_comm 1] at settles leads
  exact .of_leads leads rfl settles

theorem Follows.stop {e : RuntimeError}
    (first : Follows labels (.single s) world ⟨.error e, after⟩) :
    Follows labels (.sequence (s :: rest)) world ⟨.error e, after⟩ := by
  intro frame outer line left
  have stops : Settles ⟨labels, frame :: outer, none, world, line⟩ (frame.next :: outer)
    ⟨.error e, after⟩ := first.settles (current?_of_drop left).1
  exact stops

theorem Follows.repeat {between : World}
    (once : Follows labels (.sequence body) world ⟨.ok (), between⟩)
    (more : Follows labels (.again body) between last) :
    Follows labels (.again body) world last := by
  intro outer target line
  obtain ⟨line, leads⟩ := once ⟨body, 0, true⟩ outer line rfl
  have atEnd : (⟨body, 0 + body.length, true⟩ : Frame).current? = none := by
    simp only [Frame.current?, Nat.zero_add, List.getElem?_eq_none_iff, Nat.le_refl]
  have restarts : step ⟨labels, ⟨body, 0 + body.length, true⟩ :: outer, none, between, line⟩ =
      .ok true ⟨labels, ⟨body, 0, true⟩ :: outer, none, between, line⟩ := by
    simp only [step, atEnd, if_true]
    rfl
  exact .of_leads (leads.trans (.step restarts)) rfl (more outer target line)

end

/-- The engine follows every evaluation. -/
theorem follows_of_evaluates (labels : Labels) {task : Task} {world : World}
    (evaluates : Evaluates task world last) : Follows labels task world last := by
  induction evaluates with
  | act world acts => exact .act acts
  | label name line world => exact fun frame outer line => ⟨line, .refl _⟩
  | empty line world => exact fun frame outer line => ⟨line, .refl _⟩
  | block inner ih => exact .block ih
  | loop inner ih => exact fun frame outer line => ih (frame :: outer) (frame.next :: outer) line
  | untested tested =>
    intro frame outer line
    rw [Statement.execute, Statement.evaluate_bind, tested]
  | undecided tested =>
    intro frame outer line
    rw [Statement.execute, Statement.evaluate_bind, tested]
  | skipped tested fails =>
    intro frame outer line
    simp only [Statement.execute, Statement.evaluate_bind, tested, fails, Bool.false_eq_true,
      if_false]
    exact ⟨line, .refl _⟩
  | chosen tested holds inner ih =>
    intro frame outer line
    simp only [Statement.execute, Statement.evaluate_bind, tested, holds, if_true]
    exact ih frame outer line
  | branch tested holds inner ih =>
    intro frame outer line
    simp only [Statement.execute, Statement.evaluate_bind, tested, holds, if_true]
    exact ih frame outer line
  | other tested fails inner ih =>
    intro frame outer line
    simp only [Statement.execute, Statement.evaluate_bind, tested, fails, Bool.false_eq_true,
      if_false]
    exact ih frame outer line
  | nil world => exact fun frame outer line _ => ⟨line, .refl _⟩
  | cons first others ihFirst ihOthers => exact ihFirst.cons ihOthers
  | stop first ih => exact ih.stop
  | «repeat» once more ihOnce ihMore => exact ihOnce.repeat ihMore
  | «break» once ih => exact fun outer target line => ih ⟨_, 0, true⟩ outer line rfl

end Engine

end GotoLang
