import GotoLang.Proofs.LabelTable

set_option autoImplicit false

namespace GotoLang

/-- Where a statement begins in the text, and where one ends. -/
inductive Bracket where
  | opens (s : Statement)
  | closes

def Bracket.statement? : Bracket → Option Statement
  | opens s => some s
  | closes => none

mutual

/-- The text of a statement. -/
def Statement.brackets : Statement → List Bracket
  | .block body line => .opens (.block body line) :: (bracketsOf body ++ [.closes])
  | .loop body line => .opens (.loop body line) :: (bracketsOf body ++ [.closes])
  | .ifThen condition branch line =>
    .opens (.ifThen condition branch line) :: (branch.brackets ++ [.closes])
  | .ifThenElse condition branch other line =>
    .opens (.ifThenElse condition branch other line) ::
      (branch.brackets ++ other.brackets ++ [.closes])
  | s => [.opens s, .closes]

def bracketsOf : List Statement → List Bracket
  | [] => []
  | s :: rest => s.brackets ++ bracketsOf rest

end

def Program.brackets (p : Program) : List Bracket :=
  bracketsOf p.body

/-- The text that is left of the sequence of a frame. -/
def Frame.brackets (frame : Frame) : List Bracket :=
  bracketsOf (frame.statements.drop frame.cursor)

theorem bracketsOf_append (first second : List Statement) :
    bracketsOf (first ++ second) = bracketsOf first ++ bracketsOf second := by
  induction first with
  | nil => rfl
  | cons s rest ih => rw [List.cons_append, bracketsOf, bracketsOf, ih, List.append_assoc]

theorem filterMap_bracketsOf {body : List Statement}
    (each : ∀ s ∈ body, s.brackets.filterMap Bracket.statement? = s.all) :
    (bracketsOf body).filterMap Bracket.statement? = allOf body := by
  induction body with
  | nil => rfl
  | cons s rest ih =>
    have ⟨first, others⟩ := List.forall_mem_cons.1 each
    rw [bracketsOf, allOf, List.filterMap_append, first, ih others]

/-- Statements open in the order of the text. -/
theorem Statement.filterMap_brackets (s : Statement) :
    s.brackets.filterMap Bracket.statement? = s.all := by
  induction s with
  | block body line ih | loop body line ih =>
    simp only [brackets, all, List.filterMap_cons, List.filterMap_append, Bracket.statement?,
      filterMap_bracketsOf ih, List.filterMap_nil, List.append_nil]
  | ifThen condition branch line ih =>
    simp only [brackets, all, List.filterMap_cons, List.filterMap_append, Bracket.statement?, ih,
      List.filterMap_nil, List.append_nil]
  | ifThenElse condition branch other line ihBranch ihOther =>
    simp only [brackets, all, List.filterMap_cons, List.filterMap_append, Bracket.statement?,
      ihBranch, ihOther, List.filterMap_nil, List.append_nil]
  | declare | assign | read | write | goto | label | empty => rfl

theorem Program.filterMap_brackets (p : Program) :
    p.brackets.filterMap Bracket.statement? = p.all :=
  filterMap_bracketsOf fun s _ => s.filterMap_brackets

theorem length_bracketsOf {body : List Statement}
    (each : ∀ s ∈ body, s.brackets.length = 2 * s.all.length) :
    (bracketsOf body).length = 2 * (allOf body).length := by
  induction body with
  | nil => rfl
  | cons s rest ih =>
    have ⟨first, others⟩ := List.forall_mem_cons.1 each
    simp only [bracketsOf, allOf, List.length_append, first, ih others]
    omega

/-- Every statement has two brackets. -/
theorem Statement.length_brackets (s : Statement) : s.brackets.length = 2 * s.all.length := by
  induction s with
  | block body line ih | loop body line ih =>
    have inside := length_bracketsOf ih
    simp only [brackets, all, List.length_cons, List.length_append, List.length_nil, inside]
    omega
  | ifThen condition branch line ih =>
    simp only [brackets, all, List.length_cons, List.length_append, List.length_nil, ih]
    omega
  | ifThenElse condition branch other line ihBranch ihOther =>
    simp only [brackets, all, List.length_cons, List.length_append, List.length_nil, ihBranch,
      ihOther]
    omega
  | declare | assign | read | write | goto | label | empty => rfl

theorem Program.length_brackets (p : Program) : p.brackets.length = 2 * p.all.length :=
  length_bracketsOf fun s _ => s.length_brackets

theorem Statement.brackets_ne_nil (s : Statement) : s.brackets ≠ [] := by
  cases s <;> exact List.cons_ne_nil _ _

/-- The piece is a part of the text of the statement. -/
def Statement.Spans (s : Statement) (piece : List Bracket) : Prop :=
  ∃ front behind, s.brackets = front ++ (piece ++ behind)

namespace Statement.Spans

variable {s : Statement} {piece : List Bracket}

theorem self (whole : s.brackets = piece) : s.Spans piece :=
  ⟨[], [], by rw [whole, List.nil_append, List.append_nil]⟩

theorem ifThen (spans : s.Spans piece) (condition : Expr) (line : Nat) :
    (Statement.ifThen condition s line).Spans piece := by
  obtain ⟨front, behind, split⟩ := spans
  refine ⟨.opens (.ifThen condition s line) :: front, behind ++ [.closes], ?_⟩
  simp only [Statement.brackets, split, List.append_assoc, List.cons_append]

theorem branch (spans : s.Spans piece) (condition : Expr) (other : Statement) (line : Nat) :
    (Statement.ifThenElse condition s other line).Spans piece := by
  obtain ⟨front, behind, split⟩ := spans
  refine ⟨.opens (.ifThenElse condition s other line) :: front,
    behind ++ (other.brackets ++ [.closes]), ?_⟩
  simp only [Statement.brackets, split, List.append_assoc, List.cons_append]

theorem other (spans : s.Spans piece) (condition : Expr) (branch : Statement) (line : Nat) :
    (Statement.ifThenElse condition branch s line).Spans piece := by
  obtain ⟨front, behind, split⟩ := spans
  refine ⟨.opens (.ifThenElse condition branch s line) :: (branch.brackets ++ front),
    behind ++ [.closes], ?_⟩
  simp only [Statement.brackets, split, List.append_assoc, List.cons_append]

end Statement.Spans

/-- A sequence that a statement opens is in its text, between the brackets of a block or loop. -/
theorem Statement.Opens.spans {s : Statement} {body : List Statement} {isLoop : Bool}
    (opens : s.Opens body isLoop) :
    ∃ opener, s.Spans (.opens opener :: (bracketsOf body ++ [.closes])) := by
  induction opens with
  | block body line | loop body line => exact ⟨_, .self rfl⟩
  | @ifThen condition _ line _ _ _ ih =>
    obtain ⟨opener, spans⟩ := ih
    exact ⟨opener, spans.ifThen condition line⟩
  | @branch condition _ other line _ _ _ ih =>
    obtain ⟨opener, spans⟩ := ih
    exact ⟨opener, spans.branch condition other line⟩
  | @other condition branch _ line _ _ _ ih =>
    obtain ⟨opener, spans⟩ := ih
    exact ⟨opener, spans.other condition branch line⟩

theorem Frame.brackets_of_current? {frame : Frame} {s : Statement}
    (here : frame.current? = some s) : frame.brackets = s.brackets ++ frame.next.brackets := by
  rw [brackets, drop_cursor here, bracketsOf]
  rfl

/-- The innermost sequence of a position ends in front of this part of the text. -/
inductive Position.EndsBefore (p : Program) : Position → List Bracket → Prop
  | root (cursor : Nat) : EndsBefore p [⟨p.body, cursor, false⟩] []
  | nest {frame inner : Frame} {outer : Position} {s opener : Statement}
      {front behind after : List Bracket} (around : EndsBefore p (frame :: outer) after)
      (here : frame.current? = some s)
      (split : s.brackets =
        front ++ (.opens opener :: (bracketsOf inner.statements ++ [.closes]) ++ behind)) :
      EndsBefore p (inner :: frame :: outer) (.closes :: (behind ++ (frame.next.brackets ++ after)))

namespace Position

variable {p : Program} {frame : Frame} {outer position : Position} {after : List Bracket}

/-- Where a sequence ends does not depend on how far it was executed. -/
theorem EndsBefore.move (ends : EndsBefore p (frame :: outer) after) (cursor : Nat) :
    EndsBefore p ({ frame with cursor := cursor } :: outer) after := by
  cases ends with
  | root _ => exact .root cursor
  | nest around here split => exact .nest around here split

theorem IsPath.endsBefore (path : position.IsPath p) : ∃ after, position.EndsBefore p after := by
  induction path with
  | root cursor inside => exact ⟨[], .root cursor⟩
  | nest path encloses inside ih =>
    obtain ⟨after, around⟩ := ih
    obtain ⟨s, here, opens⟩ := encloses
    obtain ⟨opener, front, behind, split⟩ := opens.spans
    exact ⟨_, .nest around here split⟩

/-- What is left of the innermost sequence and what is behind it is the end of the text. -/
theorem EndsBefore.exists_front (ends : EndsBefore p position after)
    (stands : position = frame :: outer) :
    ∃ front, p.brackets = front ++ (frame.brackets ++ after) := by
  induction ends generalizing frame outer with
  | root cursor =>
    cases stands
    refine ⟨bracketsOf (p.body.take cursor), ?_⟩
    rw [List.append_nil, Frame.brackets, ← bracketsOf_append, List.take_append_drop]
    rfl
  | @nest around inner rest s opener front behind after path here split ih =>
    cases stands
    -- The inner sequence is a part of the statement that the frame around it stands at.
    obtain ⟨before, whole⟩ := ih rfl
    refine ⟨before ++ front ++ .opens opener ::
      bracketsOf (inner.statements.take inner.cursor), ?_⟩
    have body : bracketsOf inner.statements =
        bracketsOf (inner.statements.take inner.cursor) ++ inner.brackets := by
      rw [Frame.brackets, ← bracketsOf_append, List.take_append_drop]
    rw [whole, Frame.brackets_of_current? here, split, body]
    simp only [List.append_assoc, List.cons_append, List.nil_append]

end Position

end GotoLang
