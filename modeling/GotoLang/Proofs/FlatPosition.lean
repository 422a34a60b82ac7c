import GotoLang.Proofs.Branches
import GotoLang.Proofs.FlatMachine
import GotoLang.Proofs.Path

set_option autoImplicit false

namespace GotoLang

/-- A position stands at a place of a flat program. Behind a loop comes nothing, since its code ends
with a jump to its start. -/
inductive Standing (code : List Instruction) : Position → Nat → Prop
  | ended : Standing code [] code.length
  | inBlock {body : List Statement} {cursor place next : Nat} {outer : Position}
      (rest : CodeAt code place (codeOf place (body.drop cursor)))
      (slides : Slides code (place + (codeOf place (body.drop cursor)).length) next)
      (after : Standing code (Engine.advance outer) next) :
      Standing code (⟨body, cursor, false⟩ :: outer) place
  | inLoop {body : List Statement} {cursor place start : Nat} {outer : Position}
      (rest : CodeAt code place (codeOf place (body.drop cursor) ++ [.jump start]))
      (whole : CodeAt code start (codeOf start body ++ [.jump start])) :
      Standing code (⟨body, cursor, true⟩ :: outer) place

/-- Jumps lead from the place to one where the position stands. -/
def Arrives (code : List Instruction) (position : Position) (place : Nat) : Prop :=
  ∃ next, Slides code place next ∧ Standing code position next

/-- The code of a statement begins at the place, and behind it comes what follows the statement in
its sequence. -/
structure Placed (code : List Instruction) (here : Position) (s : Statement) (place : Nat) :
    Prop where
  begins : CodeAt code place (s.code place)
  after : Arrives code (Engine.advance here) (place + (s.code place).length)

variable {code : List Instruction} {here outer position : Position} {frame : Frame} {place : Nat}

theorem Standing.arrives (standing : Standing code position place) : Arrives code position place :=
  ⟨place, .refl place, standing⟩

theorem Arrives.jump {next : Nat} (jumps : code[place]? = some (.jump next))
    (arrives : Arrives code position next) : Arrives code position place := by
  obtain ⟨last, slides, standing⟩ := arrives
  exact ⟨last, .jump jumps slides, standing⟩

namespace Standing

variable {s : Statement}

/-- The statement under the cursor stands where the position does, and the next one behind it. -/
theorem step (standing : Standing code (frame :: outer) place) (stands : frame.current? = some s) :
    CodeAt code place (s.code place) ∧
      Standing code (frame.next :: outer) (place + (s.code place).length) := by
  have split := frame.drop_cursor stands
  cases standing with
  | inBlock rest slides after =>
    simp only at split
    rw [split, codeOf] at rest slides
    rw [List.length_append, ← Nat.add_assoc] at slides
    exact ⟨rest.left, .inBlock rest.right slides after⟩
  | inLoop rest whole =>
    simp only at split
    rw [split, codeOf, List.append_assoc] at rest
    exact ⟨rest.left, .inLoop rest.right whole⟩

theorem placed (standing : Standing code (frame :: outer) place)
    (stands : frame.current? = some s) : Placed code (frame :: outer) s place :=
  ⟨(standing.step stands).1, (standing.step stands).2.arrives⟩

/-- Behind the last statement of a block comes what follows the block. -/
theorem close (standing : Standing code (frame :: outer) place) (atEnd : frame.current? = none)
    (isBlock : frame.isLoop = false) : Arrives code (Engine.advance outer) place := by
  cases standing with
  | inBlock rest slides after =>
    have nothing := List.drop_eq_nil_of_le (List.getElem?_eq_none_iff.1 atEnd)
    simp only at nothing
    rw [nothing, codeOf, List.length_nil, Nat.add_zero] at slides
    exact ⟨_, slides, after⟩
  | inLoop => cases isBlock

/-- Behind the last statement of a loop stands a jump to the first one. -/
theorem restart (standing : Standing code (frame :: outer) place) (atEnd : frame.current? = none)
    (isLoop : frame.isLoop = true) :
    ∃ start, code[place]? = some (.jump start) ∧ Standing code (frame.restart :: outer) start := by
  cases standing with
  | inBlock => cases isLoop
  | inLoop rest whole =>
    have nothing := List.drop_eq_nil_of_le (List.getElem?_eq_none_iff.1 atEnd)
    simp only at nothing
    rw [nothing, codeOf] at rest
    exact ⟨_, rest.head, .inLoop whole whole⟩

end Standing

namespace Placed

variable {body : List Statement} {condition : Expr} {branch other : Statement} {line : Nat}

theorem block (placed : Placed code here (.block body line) place) :
    Standing code (⟨body, 0, false⟩ :: here) place := by
  obtain ⟨next, slides, after⟩ := placed.after
  exact .inBlock placed.begins slides after

theorem loop (placed : Placed code here (.loop body line) place) :
    Standing code (⟨body, 0, true⟩ :: here) place :=
  .inLoop placed.begins placed.begins

theorem effect {s : Statement} {effect : Effect} (placed : Placed code here s place)
    (acts : s.effect? = some effect) :
    code[place]? = some (.act effect) ∧ Arrives code (Engine.advance here) (place + 1) := by
  have single : s.code place = [.act effect] := by
    cases s <;> cases acts <;> rfl
  have begins := placed.begins
  have after := placed.after
  rw [single] at begins after
  exact ⟨begins.head, after⟩

theorem ifThen (placed : Placed code here (.ifThen condition branch line) place) :
    ∃ otherwise, code[place]? = some (.test condition otherwise) ∧
      Placed code here branch (place + 1) ∧ Arrives code (Engine.advance here) otherwise := by
  have after := placed.after
  rw [Statement.code, List.length_cons, Nat.add_comm _ 1, ← Nat.add_assoc] at after
  exact ⟨_, placed.begins.head, ⟨placed.begins.tail, after⟩, after⟩

theorem ifThenElse (placed : Placed code here (.ifThenElse condition branch other line) place) :
    let otherwise := place + 1 + (branch.code (place + 1)).length + 1
    code[place]? = some (.test condition otherwise) ∧ Placed code here branch (place + 1) ∧
      Placed code here other otherwise := by
  have tail := placed.begins.tail
  have behind := tail.right
  have after := placed.after
  have rejected : Placed code here other (place + 1 + (branch.code (place + 1)).length + 1) := by
    refine ⟨behind.tail, ?_⟩
    simp only [Statement.code, List.length_cons, List.length_append] at after
    rwa [show ∀ m n, place + (m + (n + 1) + 1) = place + 1 + m + 1 + n by omega] at after
  have chosen : Placed code here branch (place + 1) := by
    refine ⟨tail.left, ?_⟩
    exact .jump behind.head rejected.after
  exact ⟨placed.begins.head, chosen, rejected⟩

end Placed

/-- A program stands at its start. -/
theorem Program.standing (p : Program) : Standing p.flat [p.root] 0 := by
  refine .inBlock (CodeAt.all p.flat) ?_ .ended
  rw [Nat.zero_add]
  exact .refl p.flat.length

/-- A label is among the markers if and only if its instruction is in the piece of code that begins
at the place, and the marker of the first one stands where its instruction does. -/
def Located (code : List Instruction) (name : String) (place : Nat) (markers : List Marker)
    (piece : List Instruction) : Prop :=
  Option.Rel (fun marker i => Standing code marker.position (place + i))
    (markers.find? (·.name == name)) (piece.findIdx? (· == .label name))

namespace Located

variable {name : String} {markers others : List Marker} {piece rest : List Instruction}

theorem append (first : Located code name place markers piece)
    (second : Located code name (place + piece.length) others rest) :
    Located code name place (markers ++ others) (piece ++ rest) := by
  unfold Located at *
  rw [List.find?_append, List.findIdx?_append]
  generalize markers.find? (·.name == name) = found, piece.findIdx? (· == .label name) = i at first
  cases first with
  | some standing => exact .some standing
  | none =>
    generalize others.find? (·.name == name) = found, rest.findIdx? (· == .label name) = i at second
    cases second with
    | @some marker i standing =>
      refine .some ?_
      simpa only [Nat.add_comm i, Nat.add_assoc] using standing
    | none => exact .none

/-- Code without labels in front of a piece only moves it. -/
theorem cons {instruction : Instruction} (other : instruction ≠ .label name)
    (located : Located code name (place + 1) markers piece) :
    Located code name place markers (instruction :: piece) := by
  have nothing : Located code name place [] [instruction] := by
    unfold Located
    rw [List.findIdx?_singleton, if_neg (by simpa only [beq_iff_eq] using other)]
    exact .none
  exact nothing.append located

/-- The marker of a label whose position stands where the instruction does. -/
theorem label (label : String) (line : Nat) (standing : Standing code here place) :
    Located code name place [⟨label, line, here⟩] [.label label] := by
  unfold Located
  rw [List.find?_singleton, List.findIdx?_singleton]
  by_cases same : label = name
  · simpa only [same, beq_self_eq_true, if_true] using .some standing
  · simpa only [beq_iff_eq, same, Instruction.label.injEq, if_false] using .none

/-- The labels of a sequence, if those of each statement are located. -/
theorem sequence {body : List Statement} {isLoop : Bool}
    (each : ∀ s ∈ body, ∀ {here : Position} {place : Nat}, Placed code here s place →
      Standing code here place → Located code name place (s.markers here) (s.code place))
    {cursor : Nat} (standing : Standing code (⟨body, cursor, isLoop⟩ :: outer) place) :
    Located code name place (markersFrom outer ⟨body, cursor, isLoop⟩ (body.drop cursor))
      (codeOf place (body.drop cursor)) := by
  generalize left : body.drop cursor = statements
  induction statements generalizing cursor place with
  | nil => exact .none
  | cons s statements ih =>
    have stands : (Frame.mk body cursor isLoop).current? = some s := by
      rw [Frame.current?, ← List.head?_drop, left, List.head?_cons]
    have later : body.drop (cursor + 1) = statements := by
      rw [← List.drop_drop, left, List.drop_one, List.tail_cons]
    rw [markersFrom, codeOf]
    apply Located.append
    · exact each s (List.mem_of_getElem? stands) (standing.placed stands) standing
    · exact ih (standing.step stands).2 later

end Located

/-- Every label in a statement is located where its code stands. A label that is a branch would
have no position of its own. -/
theorem Statement.located (name : String) (s : Statement)
    (plain : s.Everywhere PlainBranches) (placed : Placed code here s place)
    (labelled : s.isPlain = false → Standing code here place) :
    Located code name place (s.markers here) (s.code place) := by
  induction s generalizing here place with
  | block body line ih =>
    have inside := (Everywhere.block.1 plain).2
    apply Located.sequence _ placed.block
    intro s member here place placed standing
    apply ih s member (inside s member) placed
    intro _
    exact standing
  | loop body line ih =>
    have inside := (Everywhere.loop.1 plain).2
    have located : Located code name place (markersFrom here ⟨body, 0, true⟩ body)
        (codeOf place body) := by
      apply Located.sequence _ placed.loop
      intro s member here place placed standing
      apply ih s member (inside s member) placed
      intro _
      exact standing
    have back : Located code name (place + (codeOf place body).length) [] [.jump place] :=
      .cons Instruction.noConfusion .none
    simpa only [Statement.markers, Statement.code, List.append_nil] using located.append back
  | ifThen condition branch line ih =>
    obtain ⟨branchPlain, inside⟩ := Everywhere.ifThen.1 plain
    obtain ⟨otherwise, _, chosen, _⟩ := placed.ifThen
    apply Located.cons Instruction.noConfusion
    apply ih inside chosen
    intro label
    rw [branchPlain] at label
    cases label
  | ifThenElse condition branch other line ihBranch ihOther =>
    obtain ⟨⟨branchPlain, otherPlain⟩, inBranch, inOther⟩ := Everywhere.ifThenElse.1 plain
    obtain ⟨_, chosen, rejected⟩ := placed.ifThenElse
    apply Located.cons Instruction.noConfusion
    apply Located.append
    · apply ihBranch inBranch chosen
      intro label
      rw [branchPlain] at label
      cases label
    · apply Located.cons Instruction.noConfusion
      apply ihOther inOther rejected
      intro label
      rw [otherPlain] at label
      cases label
  | label label line => exact .label label line (labelled rfl)
  | declare | assign | read | write => exact .cons Instruction.noConfusion .none
  | goto => exact .cons Instruction.noConfusion .none
  | empty => exact .none

section Address

variable {p : Program} (plain : ∀ s ∈ p.body, s.Everywhere Statement.PlainBranches) {name : String}

include plain

theorem Program.located (name : String) : Located p.flat name 0 p.markers p.flat := by
  apply Located.sequence _ p.standing
  intro s member here place placed standing
  apply s.located name (plain s member) placed
  intro _
  exact standing

/-- A label that has a marker has a place, and the position of the marker stands there. -/
theorem address?_of_find? {marker : Marker}
    (found : (Labels.mk p.markers).find? name = some marker) :
    ∃ place, address? p.flat name = some place ∧ Standing p.flat marker.position place := by
  have located := Program.located plain name
  rw [Labels.find?] at found
  rw [Located, found] at located
  generalize leads : p.flat.findIdx? (· == .label name) = address at located
  cases located with
  | @some _ place standing =>
    rw [Nat.zero_add] at standing
    exact ⟨place, leads, standing⟩

theorem address?_eq_none (missing : (Labels.mk p.markers).find? name = none) :
    address? p.flat name = none := by
  have located := Program.located plain name
  rw [Labels.find?] at missing
  rw [Located, missing] at located
  generalize leads : p.flat.findIdx? (· == .label name) = address at located
  cases located with
  | none => exact leads

end Address

end GotoLang
