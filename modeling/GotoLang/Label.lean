import GotoLang.RuntimeError

set_option autoImplicit false

namespace GotoLang

/-- An open sequence of statements: a block, the body of a loop or the whole program. -/
structure Frame where
  statements : List Statement
  cursor : Nat
  isLoop : Bool

namespace Frame

def current? (frame : Frame) : Option Statement :=
  frame.statements[frame.cursor]?

def next (frame : Frame) : Frame :=
  { frame with cursor := frame.cursor + 1 }

def restart (frame : Frame) : Frame :=
  { frame with cursor := 0 }

end Frame

/-- A stack of frames, innermost first. -/
abbrev Position := List Frame

/-- A label with the position that a jump to it installs. -/
structure Marker where
  name : String
  line : Nat
  position : Position

mutual

/-- The labels in a statement that stands at the given position. A branch of an `if` shares the
position of the `if`. -/
def Statement.markers (here : Position) : Statement → List Marker
  | .label name line => [⟨name, line, here⟩]
  | .block body _ => markersFrom here ⟨body, 0, false⟩ body
  | .loop body _ => markersFrom here ⟨body, 0, true⟩ body
  | .ifThen _ branch _ => branch.markers here
  | .ifThenElse _ branch other _ => branch.markers here ++ other.markers here
  | _ => []

/-- The labels in the statements from the cursor of a frame on. -/
def markersFrom (outer : Position) (frame : Frame) : List Statement → List Marker
  | [] => []
  | statement :: rest =>
    statement.markers (frame :: outer) ++ markersFrom outer frame.next rest

end

def Program.root (p : Program) : Frame := ⟨p.body, 0, false⟩

def Program.markers (p : Program) : List Marker :=
  markersFrom [] p.root p.body

/-- The first marker whose name is taken, with the one that has it. -/
def duplicate? (earlier : List Marker) : List Marker → Option (Marker × Marker)
  | [] => none
  | marker :: rest =>
    match earlier.find? (·.name == marker.name) with
    | some first => some (first, marker)
    | none => duplicate? (marker :: earlier) rest

/-- The labels of a program, none of them twice. -/
structure Labels where
  markers : List Marker

namespace Labels

/-- The labels of a program; the first label whose name is taken is an error. -/
def ofProgram (p : Program) : Except RuntimeError Labels :=
  match duplicate? [] p.markers with
  | some (first, again) => .error ⟨.duplicateLabel again.name first.line, again.line⟩
  | none => .ok ⟨p.markers⟩

def find? (labels : Labels) (name : String) : Option Marker :=
  labels.markers.find? (·.name == name)

def size (labels : Labels) : Nat :=
  labels.markers.length

def resolve (labels : Labels) (name : String) (line : Nat) : Except RuntimeError Marker :=
  match labels.find? name with
  | some marker => .ok marker
  | none => .error ⟨.undefinedLabel name, line⟩

end Labels

end GotoLang
