import GotoLang.Proofs.EnginePath

set_option autoImplicit false

namespace GotoLang

/-- A loop over the given statements is open inside the given frames. Its cursor may be anywhere,
and any frames may be open inside the loop. -/
def Position.InLoop (position : Position) (body : List Statement) (outer : Position) : Prop :=
  ∃ inner cursor, position = inner ++ ⟨body, cursor, true⟩ :: outer

namespace Engine

/-- The next call of `step` carries out a jump. -/
def Lands (engine : Engine) : Prop :=
  ∃ jump marker, engine.jump? = some jump ∧ engine.labels.find? jump.label = some marker

end Engine

namespace Position.InLoop

variable {body : List Statement} {outer position : Position}

theorem ne_nil (inside : position.InLoop body outer) : position ≠ [] := by
  obtain ⟨inner, cursor, stands⟩ := inside
  rw [stands]
  exact List.append_ne_nil_of_right_ne_nil inner (List.cons_ne_nil _ outer)

/-- A frame that is opened is opened inside the loop. -/
theorem enter (inside : position.InLoop body outer) (frame : Frame) :
    InLoop (frame :: position) body outer := by
  obtain ⟨inner, cursor, stands⟩ := inside
  exact ⟨frame :: inner, cursor, congrArg (frame :: ·) stands⟩

/-- Only the cursor of the innermost frame is moved, which may be that of the loop. -/
theorem move {frame : Frame} {rest : Position} (inside : InLoop (frame :: rest) body outer)
    (cursor : Nat) : InLoop ({ frame with cursor } :: rest) body outer := by
  obtain ⟨inner, before, stands⟩ := inside
  cases inner with
  | nil =>
    obtain ⟨rfl, rfl⟩ := List.cons.inj stands
    exact ⟨[], cursor, rfl⟩
  | cons first inner =>
    obtain ⟨rfl, rfl⟩ := List.cons.inj stands
    exact ⟨{ frame with cursor } :: inner, before, rfl⟩

theorem advance (inside : position.InLoop body outer) :
    InLoop (Engine.advance position) body outer := by
  cases position with
  | nil => exact inside
  | cons frame rest => exact inside.move (frame.cursor + 1)

/-- A frame that is closed is no loop, so it is inside of the loop. -/
theorem close {frame : Frame} {rest : Position} (inside : InLoop (frame :: rest) body outer)
    (isBlock : frame.isLoop = false) : InLoop (Engine.advance rest) body outer := by
  obtain ⟨inner, cursor, stands⟩ := inside
  cases inner with
  | nil =>
    obtain ⟨rfl, rfl⟩ := List.cons.inj stands
    cases isBlock
  | cons first inner =>
    have deeper : rest = inner ++ ⟨body, cursor, true⟩ :: outer := (List.cons.inj stands).2
    exact advance ⟨inner, cursor, deeper⟩

end Position.InLoop

namespace Engine

open Position (InLoop)

variable {body : List Statement} {outer : Position} {engine : Engine}

/-- A step that carries out no jump stays in the loop, whether or not it fails. -/
theorem inLoop_of_move {outcome : Outcome Bool} (inside : engine.position.InLoop body outer)
    (move : engine.Move outcome) (stays : ¬ engine.Lands) :
    outcome.engine.position.InLoop body outer := by
  cases move with
  | land jump marker pending found => exact absurd ⟨jump, marker, pending, found⟩ stays
  | lose | rest | fail => exact inside
  | restart frame around free stands atEnd isLoop =>
    rw [stands] at inside
    exact inside.move 0
  | close frame around free stands atEnd isBlock =>
    rw [stands] at inside
    exact inside.close isBlock
  | execute frame around s flow world free stands here executed =>
    cases flow with
    | next => exact inside.advance
    | enter frame => exact inside.enter frame
    | jump name line => exact inside

theorem inLoop_afterCalls (inside : engine.position.InLoop body outer) {calls : Nat}
    (stays : ∀ k < calls, ¬ (engine.afterCalls k).Lands) :
    (engine.afterCalls calls).position.InLoop body outer := by
  induction calls with
  | zero => exact inside
  | succ calls ih =>
    have before := ih fun k less => stays k (Nat.lt_succ_of_lt less)
    rw [afterCalls_succ]
    exact inLoop_of_move before (step_move _) (stays calls (Nat.lt_succ_self calls))

/-- A run that has come to its end has carried out a jump. -/
theorem exists_lands_of_ended (inside : engine.position.InLoop body outer) {steps : Nat}
    {last : Engine} (ended : engine.runFor steps = .ended (.ok () last)) :
    ∃ k < steps, (engine.afterCalls k).Lands := by
  induction steps generalizing engine with
  | zero => cases ended
  | succ steps ih =>
    by_cases lands : engine.Lands
    · exact ⟨0, Nat.succ_pos steps, lands⟩
    · have move := engine.step_move
      have goesOn := inLoop_of_move inside move lands
      rw [runFor] at ended
      cases taken : engine.step with
      | error e failed =>
        rw [taken] at ended
        cases ended
      | ok goes next =>
        rw [taken] at move goesOn ended
        cases goes with
        | true =>
          obtain ⟨k, less, found⟩ := ih goesOn ended
          have same : engine.afterCalls (k + 1) = next.afterCalls k := by
            rw [afterCalls, Function.iterate_succ_apply, taken]
            rfl
          exact ⟨k + 1, Nat.succ_lt_succ less, same ▸ found⟩
        | false =>
          cases move with
          | rest free nowhere => exact absurd nowhere inside.ne_nil

/-- While a jump is pending, the innermost cursor is at the statement that announced it. -/
theorem Reachable.current?_of_pending {first : Engine} (reached : Reachable first engine)
    (free : first.jump? = none) {frame : Frame} {around : Position}
    (stands : engine.position = frame :: around) (atEnd : frame.current? = none) :
    engine.jump? = none := by
  have announced : ∀ jump, engine.jump? = some jump → ∃ frame around s,
      engine.position = frame :: around ∧ frame.current? = some s := by
    apply reached.invariant
    · intro jump pending
      rw [free] at pending
      cases pending
    · intro engine outcome before move jump pending
      cases move with
      | land | lose => cases pending
      | rest free => cases free.symm.trans pending
      | restart _ _ free | close _ _ free | fail _ _ _ _ _ free => cases free.symm.trans pending
      | execute frame around s flow world free stands here executed =>
        cases flow with
        | next | enter => cases free.symm.trans pending
        | jump name line => exact ⟨frame, around, s, stands, here⟩
  cases pending : engine.jump? with
  | none => rfl
  | some jump =>
    obtain ⟨_, _, s, same, here⟩ := announced jump pending
    rw [stands] at same
    obtain ⟨rfl, rfl⟩ := List.cons.inj same
    rw [atEnd] at here
    cases here

/-- At the end of its sequence a loop begins again. -/
theorem Reachable.step_restarts {first : Engine} (reached : Reachable first engine)
    (free : first.jump? = none)
    (stands : engine.position = ⟨body, body.length, true⟩ :: outer) :
    engine.step = .ok true { engine with position := ⟨body, 0, true⟩ :: outer } := by
  have atEnd : (⟨body, body.length, true⟩ : Frame).current? = none :=
    List.getElem?_eq_none (Nat.le_refl _)
  have nothing := reached.current?_of_pending free stands atEnd
  obtain ⟨labels, position, jump?, world, line⟩ := engine
  subst stands nothing
  simp only [step, atEnd, if_true]
  rfl

/-- Only a jump leaves a loop. As long as no pending jump is carried out, the frames around the loop
stay as they are and the loop stays open, so the program does not end; a run from there that ends
well has carried out a jump. Whenever the loop is the innermost frame and at its end, its cursor is
set to its first statement and nothing else changes. -/
theorem only_jump_leaves_loop (p : Program) (input : List UInt8) (output : Sink) (prompts : Bool)
    (memory : Nat → Bool) (first engine : Engine)
    (started : start p input output prompts memory = .ok first)
    (reached : Reachable first engine) (inner outer : Position) (loop : Frame)
    (stands : engine.position = inner ++ loop :: outer) (isLoop : loop.isLoop = true) :
    (∀ calls, (∀ k < calls, ¬ (engine.afterCalls k).Lands) →
      (∃ inside cursor,
        (engine.afterCalls calls).position = inside ++ { loop with cursor } :: outer) ∧
      (engine.afterCalls calls).isHalted = false ∧
      ((engine.afterCalls calls).position = { loop with cursor := loop.statements.length } :: outer →
        (engine.afterCalls calls).step = .ok true
          { engine.afterCalls calls with position := { loop with cursor := 0 } :: outer })) ∧
    ∀ steps last, engine.runFor steps = .ended (.ok () last) →
      ∃ k < steps, (engine.afterCalls k).Lands := by
  have free : first.jump? = none := by rw [eq_initial_of_start started]; rfl
  have inside : engine.position.InLoop loop.statements outer :=
    ⟨inner, loop.cursor, by rw [stands, ← isLoop]⟩
  constructor
  · intro calls stays
    have goesOn := inLoop_afterCalls inside stays
    have running : (engine.afterCalls calls).isHalted = false := by
      simp only [isHalted, List.isEmpty_eq_false_iff.2 goesOn.ne_nil, Bool.false_and]
    obtain ⟨above, cursor, position⟩ := goesOn
    rw [isLoop]
    exact ⟨⟨above, cursor, position⟩, running, (reached.afterCalls calls).step_restarts free⟩
  · intro steps last ended
    exact exists_lands_of_ended inside ended

/-- The loop is entered at its label; behind the last statement it begins again. -/
theorem only_jump_leaves_loop_entered_in_middle :
    ∃ p first, Program.ofSource "begin goto middle; loop write 1; middle: write 2 end end" =
          .ok p ∧
      start p [] .unlimited false (fun _ => true) = .ok first ∧
      ∃ loop outer, loop.isLoop = true ∧ loop.cursor = 1 ∧ loop.statements.length = 3 ∧
        (first.afterCalls 2).position = loop :: outer ∧
        (first.afterCalls 4).isHalted = false ∧
        (first.afterCalls 4).step =
          .ok true { first.afterCalls 4 with position := { loop with cursor := 0 } :: outer } := by
  let body : List Statement := [.write [.expr (.integer 1 1)] 1, .label "middle" 1,
    .write [.expr (.integer 2 1)] 1]
  let p : Program := ⟨[.goto "middle" 1, .loop body 1], 1⟩
  have parsed : Program.ofSource "begin goto middle; loop write 1; middle: write 2 end end" =
      .ok p := by
    with_unfolding_all rfl
  let first := initial p [] .unlimited false (fun _ => true)
  have started : start p [] .unlimited false (fun _ => true) = .ok first := rfl
  let outer : Position := [⟨p.body, 1, false⟩]
  have stands : (first.afterCalls 2).position = [] ++ ⟨body, 1, true⟩ :: outer := rfl
  have stays : ∀ k < 2, ¬ ((first.afterCalls 2).afterCalls k).Lands := by
    intro k less lands
    obtain ⟨jump, marker, pending, _⟩ := lands
    have either : k = 0 ∨ k = 1 := by omega
    rcases either with rfl | rfl <;> cases pending
  have reached : Reachable first (first.afterCalls 2) := Reachable.start.afterCalls 2
  obtain ⟨inLoop, _⟩ := only_jump_leaves_loop p [] .unlimited false (fun _ => true) first _ started
    reached [] outer ⟨body, 1, true⟩ stands rfl
  obtain ⟨_, goesOn, restarts⟩ := inLoop 2 stays
  exact ⟨p, first, parsed, started, ⟨body, 1, true⟩, outer, rfl, rfl, rfl, stands, goesOn,
    restarts rfl⟩

end Engine

end GotoLang
