import GotoLang.Proofs.Branches
import GotoLang.Proofs.Path
import GotoLang.Proofs.TextRun
import Mathlib.Data.List.Nodup

set_option autoImplicit false

namespace GotoLang

/-- A label in the text of a program, with the number of blocks and loops around it. -/
structure LabelSite where
  name : String
  line : Nat
  enclosing : Nat
  deriving DecidableEq

mutual

/-- The labels in a statement that stands inside the given number of blocks and loops, in the
order of the text. -/
def Statement.labelSites (enclosing : Nat) : Statement → List LabelSite
  | .label name line => [⟨name, line, enclosing⟩]
  | .block body _ | .loop body _ => labelSitesIn (enclosing + 1) body
  | .ifThen _ branch _ => branch.labelSites enclosing
  | .ifThenElse _ branch other _ => branch.labelSites enclosing ++ other.labelSites enclosing
  | _ => []

def labelSitesIn (enclosing : Nat) : List Statement → List LabelSite
  | [] => []
  | s :: rest => s.labelSites enclosing ++ labelSitesIn enclosing rest

end

def Program.labelSites (p : Program) : List LabelSite :=
  labelSitesIn 0 p.body

def Program.labelNames (p : Program) : List String :=
  p.labelSites.map (·.name)

/-- `again` is the first label whose name occurs before it, and `first` has that name. -/
def FirstRepeat (sites : List LabelSite) (first again : LabelSite) : Prop :=
  ∃ before after, sites = before ++ again :: after ∧ (before.map (·.name)).Nodup ∧
    first ∈ before ∧ first.name = again.name

def Marker.site (marker : Marker) : LabelSite :=
  ⟨marker.name, marker.line, marker.position.length - 1⟩

theorem markersFrom_map_site {outer : Position} {frame : Frame} {rest : List Statement}
    (each : ∀ s ∈ rest, ∀ here : Frame,
      (s.markers (here :: outer)).map Marker.site = s.labelSites outer.length) :
    (markersFrom outer frame rest).map Marker.site = labelSitesIn outer.length rest := by
  induction rest generalizing frame with
  | nil => rfl
  | cons s rest ih =>
    have ⟨first, others⟩ := List.forall_mem_cons.1 each
    simp only [markersFrom, labelSitesIn, List.map_append, first frame, ih others]

theorem Statement.markers_map_site (s : Statement) (frame : Frame) (outer : Position) :
    (s.markers (frame :: outer)).map Marker.site = s.labelSites outer.length := by
  induction s generalizing frame outer with
  | block body line ih =>
    exact markersFrom_map_site fun s member here => ih s member here (frame :: outer)
  | loop body line ih =>
    exact markersFrom_map_site fun s member here => ih s member here (frame :: outer)
  | ifThen condition branch line ih => exact ih frame outer
  | ifThenElse condition branch other line ihBranch ihOther =>
    simp only [markers, labelSites, List.map_append, ihBranch, ihOther]
  | label name line => rfl
  | declare | assign | read | write | goto | empty => rfl

theorem Program.markers_map_site (p : Program) : p.markers.map Marker.site = p.labelSites :=
  markersFrom_map_site fun s _ here => s.markers_map_site here []

theorem Program.markers_map_name (p : Program) : p.markers.map (·.name) = p.labelNames := by
  rw [labelNames, ← p.markers_map_site, List.map_map]
  rfl

/-- Where branches are plain, a statement bears no label but itself. -/
theorem Statement.Bears.eq_label {name : String} {line : Nat} {s : Statement}
    (bears : s.Bears name line) (plain : s.Everywhere Statement.PlainBranches) :
    s = .label name line := by
  induction bears with
  | label => rfl
  | ifThen bears ih =>
    obtain ⟨branchPlain, inside⟩ := Everywhere.ifThen.1 plain
    rw [ih inside] at branchPlain
    cases branchPlain
  | branch bears ih =>
    obtain ⟨⟨branchPlain, _⟩, inside, _⟩ := Everywhere.ifThenElse.1 plain
    rw [ih inside] at branchPlain
    cases branchPlain
  | other bears ih =>
    obtain ⟨⟨_, otherPlain⟩, _, inside⟩ := Everywhere.ifThenElse.1 plain
    rw [ih inside] at otherPlain
    cases otherPlain

theorem duplicate?_eq_none_iff {earlier rest : List Marker} :
    duplicate? earlier rest = none ↔ (rest.map (·.name)).Nodup ∧
      ∀ marker ∈ rest, ∀ other ∈ earlier, other.name ≠ marker.name := by
  induction rest generalizing earlier with
  | nil => simp [duplicate?]
  | cons marker rest ih =>
    cases found : earlier.find? (·.name == marker.name) with
    | some first =>
      have member := List.mem_of_find?_eq_some found
      have same : first.name = marker.name := by simpa using List.find?_some found
      simp only [duplicate?, found, reduceCtorEq, false_iff, not_and]
      intro _ apart
      exact apart marker List.mem_cons_self first member same
    | none =>
      have fresh : ∀ other ∈ earlier, other.name ≠ marker.name := by
        simpa using List.find?_eq_none.1 found
      simp only [duplicate?, found, ih, List.map_cons, List.nodup_cons, List.forall_mem_cons,
        List.mem_map, not_exists, not_and]
      constructor
      · rintro ⟨distinct, apart⟩
        refine ⟨⟨fun other member same => ?_, distinct⟩, fresh, fun other member => ?_⟩
        · exact (apart other member).1 same.symm
        · exact (apart other member).2
      · rintro ⟨⟨unused, distinct⟩, _, apart⟩
        exact ⟨distinct, fun other member =>
          ⟨fun same => unused other member same.symm, apart other member⟩⟩

theorem duplicate?_eq_some {earlier rest : List Marker} {first again : Marker}
    (found : duplicate? earlier rest = some (first, again)) :
    ∃ before after, rest = before ++ again :: after ∧ duplicate? earlier before = none ∧
      (first ∈ earlier ∨ first ∈ before) ∧ first.name = again.name := by
  induction rest generalizing earlier with
  | nil => cases found
  | cons marker rest ih =>
    rw [duplicate?] at found
    split at found
    · rename_i other clash
      cases found
      have same : first.name = again.name := by simpa using List.find?_some clash
      exact ⟨[], rest, rfl, rfl, Or.inl (List.mem_of_find?_eq_some clash), same⟩
    · rename_i fresh
      obtain ⟨before, after, split, unique, member, same⟩ := ih found
      refine ⟨marker :: before, after, by rw [split, List.cons_append], ?_, ?_, same⟩
      · rw [duplicate?, fresh]
        exact unique
      · rcases member with member | member
        · rcases List.mem_cons.1 member with rfl | member
          · exact Or.inr List.mem_cons_self
          · exact Or.inl member
        · exact Or.inr (List.mem_cons_of_mem marker member)

namespace Labels

theorem ofProgram_eq_ok_iff {p : Program} {labels : Labels} :
    ofProgram p = .ok labels ↔ p.labelNames.Nodup ∧ labels = ⟨p.markers⟩ := by
  have accepted : duplicate? [] p.markers = none ↔ p.labelNames.Nodup := by
    simp [duplicate?_eq_none_iff, p.markers_map_name]
  cases found : duplicate? [] p.markers with
  | none =>
    simp only [ofProgram, found, Except.ok.injEq, accepted.1 found, true_and]
    exact eq_comm
  | some clash =>
    have repeated : ¬ p.labelNames.Nodup := by
      intro distinct
      rw [accepted.2 distinct] at found
      cases found
    simp only [ofProgram, found, reduceCtorEq, repeated, false_and]

theorem firstRepeat_of_ofProgram {p : Program} {e : RuntimeError}
    (refused : ofProgram p = .error e) :
    ∃ first again, FirstRepeat p.labelSites first again ∧
      e = ⟨.duplicateLabel again.name first.line, again.line⟩ := by
  unfold ofProgram at refused
  split at refused
  · rename_i first again found
    cases refused
    obtain ⟨before, after, split, unique, member, same⟩ := duplicate?_eq_some found
    have earlier : first ∈ before := member.resolve_left List.not_mem_nil
    refine ⟨first.site, again.site, ⟨before.map Marker.site, after.map Marker.site, ?_, ?_,
      List.mem_map_of_mem earlier, same⟩, rfl⟩
    · rw [← p.markers_map_site, split, List.map_append, List.map_cons]
    · rw [List.map_map]
      exact (duplicate?_eq_none_iff.1 unique).1
  · cases refused

/-- Where names are distinct, a marker is found under its own name. -/
theorem find?_eq_some_of_mem {markers : List Marker} {marker : Marker}
    (distinct : (markers.map (·.name)).Nodup) (member : marker ∈ markers) :
    (Labels.mk markers).find? marker.name = some marker := by
  cases found : (Labels.mk markers).find? marker.name with
  | none =>
    have absent := List.find?_eq_none.1 found marker member
    simp at absent
  | some other =>
    have same : other.name = marker.name := by simpa using List.find?_some found
    rw [List.inj_on_of_nodup_map distinct (List.mem_of_find?_eq_some found) member same]

end Labels

theorem Engine.distinct_of_start {p : Program} {input : List UInt8} {output : Sink}
    {prompts : Bool} {memory : Nat → Bool} {engine : Engine}
    (started : start p input output prompts memory = .ok engine) :
    p.labelNames.Nodup := by
  rw [start_eq] at started
  cases built : Labels.ofProgram p with
  | error e =>
    rw [built] at started
    cases started
  | ok labels => exact (Labels.ofProgram_eq_ok_iff.1 built).1

/-- A marker of a program that was read has as many frames as there are blocks and loops around
its mark and one more, and the innermost cursor is at the mark. -/
theorem Program.mark_of_mem_markers {source : String} {p : Program}
    (parsed : Program.ofSource source = .ok p) {marker : Marker} (member : marker ∈ p.markers) :
    marker.position.length = 1 + marker.site.enclosing ∧ marker.position.IsPath p ∧
      ∃ frame, marker.position.head? = some frame ∧
        frame.current? = some (.label marker.name marker.line) := by
  obtain ⟨frame, outer, s, stands, path, here, bears⟩ := p.markers_stand marker member
  have plain := path.everywhere (Program.everywhere_plainBranches parsed) stands s
    (Frame.mem_of_current? here)
  refine ⟨?_, path, frame, ?_, ?_⟩
  · simp only [Marker.site, stands, List.length_cons]
    omega
  · rw [stands, List.head?_cons]
  · rw [here, bears.eq_label plain]

/-- The table of the labels of a program that was read is built exactly when their names are
distinct. It then finds exactly the labels of the text, each with its line and the path to its
mark. Otherwise the first label whose name is taken is reported, and nothing is written or
read. -/
theorem labels_exact (source : String) (p : Program) (parsed : Program.ofSource source = .ok p) :
    ((∃ labels, Labels.ofProgram p = .ok labels) ↔ p.labelNames.Nodup) ∧
    (∀ labels, Labels.ofProgram p = .ok labels →
      labels.size = p.labelSites.length ∧
      (∀ name, name ∉ p.labelNames → labels.find? name = none) ∧
      ∀ site ∈ p.labelSites, ∃ marker, labels.find? site.name = some marker ∧
        marker.line = site.line ∧ marker.position.length = 1 + site.enclosing ∧
        marker.position.IsPath p ∧
        ∃ frame, marker.position.head? = some frame ∧
          frame.current? = some (.label site.name site.line)) ∧
    ∀ e, Labels.ofProgram p = .error e →
      (∃ first again, FirstRepeat p.labelSites first again ∧
        e = ⟨.duplicateLabel again.name first.line, again.line⟩) ∧
      ∀ input output prompts memory steps, runText source input output prompts memory steps =
        ⟨some (.error (.runtime e)), input, output⟩ := by
  refine ⟨?_, ?_, ?_⟩
  · simp only [Labels.ofProgram_eq_ok_iff, exists_and_left, exists_eq, and_true]
  · intro labels built
    obtain ⟨distinct, rfl⟩ := Labels.ofProgram_eq_ok_iff.1 built
    refine ⟨?_, ?_, ?_⟩
    · rw [Labels.size, ← p.markers_map_site, List.length_map]
    · intro name absent
      rw [← p.markers_map_name] at absent
      refine List.find?_eq_none.2 fun marker member => ?_
      simpa using fun same => absent (List.mem_map.2 ⟨marker, member, same⟩)
    · intro site listed
      rw [← p.markers_map_site] at listed
      obtain ⟨marker, member, rfl⟩ := List.mem_map.1 listed
      rw [← p.markers_map_name] at distinct
      exact ⟨marker, Labels.find?_eq_some_of_mem distinct member, rfl,
        Program.mark_of_mem_markers parsed member⟩
  · intro e refused
    exact ⟨Labels.firstRepeat_of_ofProgram refused, runText_of_refused parsed refused⟩

theorem labels_exact_in_branch :
    ∃ p, Program.ofSource "begin a: loop if 1 then begin write 1;\nb: write 2 end end end" =
          .ok p ∧
      ∃ labels, Labels.ofProgram p = .ok labels ∧ labels.size = 2 ∧
        ∃ marker, labels.find? "b" = some marker ∧ marker.line = 2 ∧
          marker.position.length = 3 ∧ marker.position.IsPath p := by
  let body : List Statement := [.label "a" 1, .loop [.ifThen (.integer 1 1)
    (.block [.write [.expr (.integer 1 1)] 1, .label "b" 2, .write [.expr (.integer 2 2)] 2] 1) 1] 1]
  have parsed : Program.ofSource
      "begin a: loop if 1 then begin write 1;\nb: write 2 end end end" = .ok ⟨body, 1⟩ := by
    with_unfolding_all rfl
  obtain ⟨accepted, complete, _⟩ := labels_exact _ _ parsed
  obtain ⟨labels, built⟩ := accepted.2 (by decide)
  obtain ⟨size, _, found⟩ := complete labels built
  obtain ⟨marker, marked, line, depth, path, _⟩ := found ⟨"b", 2, 2⟩ (by decide)
  exact ⟨_, parsed, labels, built, size, marker, marked, line, depth, path⟩

end GotoLang
