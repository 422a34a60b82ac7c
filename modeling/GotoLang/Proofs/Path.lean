import GotoLang.Proofs.EngineStep
import GotoLang.Proofs.StatementTree

set_option autoImplicit false

namespace GotoLang

/-- The sequences that a statement may open: its own body, or that of a block or loop which is a
branch of an `if`, also through several of them. -/
inductive Statement.Opens : Statement → List Statement → Bool → Prop
  | block (body : List Statement) (line : Nat) : Opens (.block body line) body false
  | loop (body : List Statement) (line : Nat) : Opens (.loop body line) body true
  | ifThen {condition : Expr} {branch : Statement} {line : Nat} {body : List Statement}
      {isLoop : Bool} (opens : Opens branch body isLoop) :
      Opens (.ifThen condition branch line) body isLoop
  | branch {condition : Expr} {branch other : Statement} {line : Nat} {body : List Statement}
      {isLoop : Bool} (opens : Opens branch body isLoop) :
      Opens (.ifThenElse condition branch other line) body isLoop
  | other {condition : Expr} {branch other : Statement} {line : Nat} {body : List Statement}
      {isLoop : Bool} (opens : Opens other body isLoop) :
      Opens (.ifThenElse condition branch other line) body isLoop

/-- The cursor of a frame is at a statement that opens the inner frame. -/
def Frame.Encloses (frame inner : Frame) : Prop :=
  ∃ s, frame.current? = some s ∧ s.Opens inner.statements inner.isLoop

/-- The frames lead from the whole program to the innermost one, each opened by the statement
under the cursor of the one around it. -/
inductive Position.IsPath (p : Program) : Position → Prop
  | root (cursor : Nat) (inside : cursor ≤ p.body.length) : IsPath p [⟨p.body, cursor, false⟩]
  | nest {frame inner : Frame} {outer : Position} (path : IsPath p (frame :: outer))
      (encloses : frame.Encloses inner) (inside : inner.cursor ≤ inner.statements.length) :
      IsPath p (inner :: frame :: outer)

namespace Frame

theorem cursor_lt_of_current? {frame : Frame} {s : Statement}
    (here : frame.current? = some s) : frame.cursor < frame.statements.length :=
  (List.getElem?_eq_some_iff.1 here).1

theorem mem_of_current? {frame : Frame} {s : Statement} (here : frame.current? = some s) :
    s ∈ frame.statements :=
  List.mem_of_getElem? here

theorem drop_cursor {frame : Frame} {s : Statement} (stands : frame.current? = some s) :
    frame.statements.drop frame.cursor = s :: frame.statements.drop (frame.cursor + 1) := by
  obtain ⟨inside, rfl⟩ := List.getElem?_eq_some_iff.1 stands
  exact List.drop_eq_getElem_cons inside

end Frame

namespace Position.IsPath

variable {p : Program} {frame other : Frame} {outer : Position}

/-- The cursor of the innermost frame may be moved. -/
theorem move (path : IsPath p (frame :: outer)) (cursor : Nat)
    (inside : cursor ≤ frame.statements.length) :
    IsPath p ({ frame with cursor := cursor } :: outer) := by
  cases path with
  | root _ _ => exact .root cursor inside
  | nest path encloses _ => exact .nest path encloses inside

theorem next {s : Statement} (path : IsPath p (frame :: outer))
    (here : frame.current? = some s) : IsPath p (frame.next :: outer) :=
  path.move (frame.cursor + 1) (Frame.cursor_lt_of_current? here)

theorem enter {s : Statement} {body : List Statement} {isLoop : Bool}
    (path : IsPath p (frame :: outer)) (here : frame.current? = some s)
    (opens : s.Opens body isLoop) : IsPath p (⟨body, 0, isLoop⟩ :: frame :: outer) :=
  .nest path ⟨s, here, opens⟩ (Nat.zero_le body.length)

/-- Closing the innermost frame leaves no frame at all or a path. -/
theorem close (path : IsPath p (frame :: outer)) :
    Engine.advance outer = [] ∨ IsPath p (Engine.advance outer) := by
  cases path with
  | root _ _ => exact Or.inl rfl
  | nest path encloses _ =>
    obtain ⟨s, here, _⟩ := encloses
    exact Or.inr (path.next here)

end Position.IsPath

mutual

def Statement.nesting : Statement → Nat
  | .block body _ | .loop body _ => nestingOf body + 1
  | .ifThen _ branch _ => branch.nesting
  | .ifThenElse _ branch other _ => max branch.nesting other.nesting
  | _ => 0

def nestingOf : List Statement → Nat
  | [] => 0
  | s :: rest => max s.nesting (nestingOf rest)

end

theorem nesting_le_of_mem {s : Statement} {body : List Statement} (member : s ∈ body) :
    s.nesting ≤ nestingOf body := by
  induction body with
  | nil => cases member
  | cons first rest ih =>
    rw [nestingOf]
    rcases List.mem_cons.1 member with rfl | member
    · omega
    · have inRest := ih member
      omega

theorem Statement.Opens.nestingOf_lt {s : Statement} {body : List Statement} {isLoop : Bool}
    (opens : s.Opens body isLoop) : nestingOf body < s.nesting := by
  induction opens with
  | block body line => simp only [nesting, Nat.lt_succ_self]
  | loop body line => simp only [nesting, Nat.lt_succ_self]
  | ifThen _ ih => simpa only [nesting] using ih
  | branch _ ih =>
    simp only [nesting]
    omega
  | other _ ih =>
    simp only [nesting]
    omega

/-- A path is as deep as the program is nested around its innermost frame. -/
theorem Position.IsPath.length_add_nestingOf_le {p : Program} {position : Position}
    (path : position.IsPath p) {frame : Frame} {outer : Position}
    (stands : position = frame :: outer) :
    position.length + nestingOf frame.statements ≤ 1 + nestingOf p.body := by
  induction path generalizing frame outer with
  | root cursor inside =>
    cases stands
    simp only [List.length_singleton, Nat.le_refl]
  | @nest around inner rest path encloses inside ih =>
    cases stands
    obtain ⟨s, here, opens⟩ := encloses
    have deeper := opens.nestingOf_lt
    have within := nesting_le_of_mem (Frame.mem_of_current? here)
    have shorter := ih rfl
    simp only [List.length_cons] at shorter ⊢
    omega

theorem Statement.Opens.everywhere {property : Statement → Prop} {s : Statement}
    {body : List Statement} {isLoop : Bool} (opens : s.Opens body isLoop)
    (everywhere : s.Everywhere property) : ∀ t ∈ body, t.Everywhere property := by
  induction opens with
  | block body line => exact (Everywhere.block.1 everywhere).2
  | loop body line => exact (Everywhere.loop.1 everywhere).2
  | ifThen _ ih => exact ih (Everywhere.ifThen.1 everywhere).2
  | branch _ ih => exact ih (Everywhere.ifThenElse.1 everywhere).2.1
  | other _ ih => exact ih (Everywhere.ifThenElse.1 everywhere).2.2

/-- What holds everywhere in a program holds everywhere in the sequences on a path. -/
theorem Position.IsPath.everywhere {property : Statement → Prop} {p : Program}
    {position : Position} (path : position.IsPath p)
    (everywhere : ∀ s ∈ p.body, s.Everywhere property) {frame : Frame} {outer : Position}
    (stands : position = frame :: outer) : ∀ s ∈ frame.statements, s.Everywhere property := by
  induction path generalizing frame outer with
  | root cursor inside =>
    cases stands
    exact everywhere
  | nest path encloses inside ih =>
    cases stands
    obtain ⟨s, here, opens⟩ := encloses
    exact opens.everywhere (ih rfl s (Frame.mem_of_current? here))

/-- The labels that stand at the place of a statement: the statement itself, or a branch of an
`if`, also through several of them. -/
inductive Statement.Bears (name : String) (line : Nat) : Statement → Prop
  | label : Bears name line (.label name line)
  | ifThen {condition : Expr} {branch : Statement} {ifLine : Nat} (bears : Bears name line branch) :
      Bears name line (.ifThen condition branch ifLine)
  | branch {condition : Expr} {branch other : Statement} {ifLine : Nat}
      (bears : Bears name line branch) : Bears name line (.ifThenElse condition branch other ifLine)
  | other {condition : Expr} {branch other : Statement} {ifLine : Nat}
      (bears : Bears name line other) : Bears name line (.ifThenElse condition branch other ifLine)

/-- The marker has the position of a statement of the program that bears its label. -/
def Marker.Stands (p : Program) (marker : Marker) : Prop :=
  ∃ frame outer s, marker.position = frame :: outer ∧ marker.position.IsPath p ∧
    frame.current? = some s ∧ s.Bears marker.name marker.line

theorem mem_markersFrom {marker : Marker} {outer : Position} {frame : Frame}
    {rest : List Statement} :
    marker ∈ markersFrom outer frame rest ↔ ∃ (index : Nat) (s : Statement),
      rest[index]? = some s ∧
        marker ∈ s.markers ({ frame with cursor := frame.cursor + index } :: outer) := by
  induction rest generalizing frame with
  | nil => simp [markersFrom]
  | cons first rest ih =>
    rw [markersFrom, List.mem_append, ih]
    constructor
    · rintro (member | ⟨index, s, here, member⟩)
      · exact ⟨0, first, rfl, member⟩
      · refine ⟨index + 1, s, here, ?_⟩
        simpa only [Frame.next, Nat.add_assoc, Nat.add_comm 1 index] using member
    · rintro ⟨index, s, here, member⟩
      cases index with
      | zero =>
        cases here
        exact Or.inl member
      | succ index =>
        refine Or.inr ⟨index, s, here, ?_⟩
        simpa only [Frame.next, Nat.add_assoc, Nat.add_comm 1 index] using member

/-- The markers of a sequence that is opened at a path stand where they say, if this holds of the
markers of its statements. -/
theorem markersFrom_stand {p : Program} {frame : Frame} {outer : Position} {t : Statement}
    {body : List Statement} {isLoop : Bool} (path : Position.IsPath p (frame :: outer))
    (here : frame.current? = some t) (opens : t.Opens body isLoop)
    (each : ∀ s ∈ body, ∀ inner : Frame, Position.IsPath p (inner :: frame :: outer) →
      inner.current? = some s → ∀ marker ∈ s.markers (inner :: frame :: outer), marker.Stands p)
    {marker : Marker} (member : marker ∈ markersFrom (frame :: outer) ⟨body, 0, isLoop⟩ body) :
    marker.Stands p := by
  obtain ⟨index, s, found, member⟩ := mem_markersFrom.1 member
  rw [Nat.zero_add] at member
  have inside : index ≤ body.length := Nat.le_of_lt (List.getElem?_eq_some_iff.1 found).1
  have inner := (path.enter here opens).move index inside
  exact each s (List.mem_of_getElem? found) ⟨body, index, isLoop⟩ inner found marker member

/-- The induction goes through the branches of an `if` while the cursor stays at it: `t` is the
statement under the cursor, and `s` is reached from it through branches. -/
theorem Statement.markers_stand {p : Program} (s : Statement) {frame : Frame} {outer : Position}
    {t : Statement} (path : Position.IsPath p (frame :: outer)) (here : frame.current? = some t)
    (opens : ∀ body isLoop, s.Opens body isLoop → t.Opens body isLoop)
    (bears : ∀ name line, s.Bears name line → t.Bears name line) :
    ∀ marker ∈ s.markers (frame :: outer), marker.Stands p := by
  induction s generalizing frame outer t with
  | block body line ih =>
    intro marker member
    have opened := opens body false (.block body line)
    apply markersFrom_stand path here opened _ member
    intro s member inner path here
    exact ih s member path here (fun _ _ opens => opens) (fun _ _ bears => bears)
  | loop body line ih =>
    intro marker member
    have opened := opens body true (.loop body line)
    apply markersFrom_stand path here opened _ member
    intro s member inner path here
    exact ih s member path here (fun _ _ opens => opens) (fun _ _ bears => bears)
  | ifThen condition branch line ih =>
    apply ih path here
    · intro body isLoop inner
      exact opens body isLoop (.ifThen inner)
    · intro name line inner
      exact bears name line (.ifThen inner)
  | ifThenElse condition branch other line ihBranch ihOther =>
    intro marker member
    rcases List.mem_append.1 member with member | member
    · apply ihBranch path here _ _ marker member
      · intro body isLoop inner
        exact opens body isLoop (.branch inner)
      · intro name line inner
        exact bears name line (.branch inner)
    · apply ihOther path here _ _ marker member
      · intro body isLoop inner
        exact opens body isLoop (.other inner)
      · intro name line inner
        exact bears name line (.other inner)
  | label name line =>
    intro marker member
    obtain rfl := List.mem_singleton.1 member
    exact ⟨frame, outer, t, rfl, path, here, bears name line .label⟩
  | declare | assign | read | write | goto | empty =>
    intro marker member
    cases member

theorem Program.markers_stand (p : Program) : ∀ marker ∈ p.markers, marker.Stands p := by
  intro marker member
  obtain ⟨index, s, here, member⟩ := mem_markersFrom.1 member
  have inside : index ≤ p.body.length := Nat.le_of_lt (List.getElem?_eq_some_iff.1 here).1
  refine s.markers_stand (.root index inside) here (fun _ _ opens => opens)
    (fun _ _ bears => bears) marker ?_
  simpa only [Program.root, Nat.zero_add] using member

/-- The markers of a sequence that a statement opens are among those of the statement. -/
theorem Statement.Opens.mem_markers {s : Statement} {body : List Statement} {isLoop : Bool}
    (opens : s.Opens body isLoop) {here : Position} {marker : Marker}
    (member : marker ∈ markersFrom here ⟨body, 0, isLoop⟩ body) : marker ∈ s.markers here := by
  induction opens with
  | block body line => exact member
  | loop body line => exact member
  | ifThen _ ih => exact ih member
  | branch _ ih => exact List.mem_append_left _ (ih member)
  | other _ ih => exact List.mem_append_right _ (ih member)

theorem mem_markersFrom_of_current? {frame : Frame} {outer : Position} {s : Statement}
    {marker : Marker} (here : frame.current? = some s)
    (member : marker ∈ s.markers (frame :: outer)) :
    marker ∈ markersFrom outer frame.restart frame.statements := by
  refine mem_markersFrom.2 ⟨frame.cursor, s, here, ?_⟩
  simpa only [Frame.restart, Nat.zero_add] using member

theorem Position.IsPath.markersFrom_subset {p : Program} {position : Position}
    (path : position.IsPath p) {frame : Frame} {outer : Position}
    (stands : position = frame :: outer) {marker : Marker}
    (member : marker ∈ markersFrom outer frame.restart frame.statements) : marker ∈ p.markers := by
  induction path generalizing frame outer with
  | root cursor inside =>
    cases stands
    exact member
  | nest path encloses inside ih =>
    cases stands
    obtain ⟨s, here, opens⟩ := encloses
    exact ih rfl (mem_markersFrom_of_current? here (opens.mem_markers member))

/-- A path to a label is the position that is recorded for it. -/
theorem Position.IsPath.label_mem_markers {p : Program} {frame : Frame} {outer : Position}
    {name : String} {line : Nat} (path : Position.IsPath p (frame :: outer))
    (here : frame.current? = some (.label name line)) :
    ⟨name, line, frame :: outer⟩ ∈ p.markers :=
  path.markersFrom_subset rfl (mem_markersFrom_of_current? here (List.mem_singleton.2 rfl))

end GotoLang
