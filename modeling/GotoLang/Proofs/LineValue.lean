import Mathlib.Data.List.DropRight
import GotoLang.Value
import GotoLang.Proofs.RealText

set_option autoImplicit false

namespace GotoLang

theorem dropEndWhile_eq_rdropWhile : dropEndWhile = List.rdropWhile (α := Char) := rfl

theorem isBlank_of_isLineEnd {c : Char} (ends : isLineEnd c = true) : isBlank c = true := by
  simp only [isLineEnd, Bool.or_eq_true, beq_iff_eq] at ends
  rcases ends with rfl | rfl <;> decide

theorem dropEndWhile_of_all {inClass : Char → Bool} {text : List Char}
    (outside : ∀ c ∈ text, inClass c = false) : dropEndWhile inClass text = text := by
  refine List.rdropWhile_eq_self_iff.2 fun filled inside => ?_
  rw [outside _ (List.getLast_mem filled)] at inside
  cases inside

theorem trim_of_solid {text : List Char} (solid : ∀ c ∈ text, isBlank c = false) :
    trim text = text := by
  have start : trimStart text = text := by
    cases text with
    | nil => rfl
    | cons c text => exact trimStart_cons (solid c List.mem_cons_self)
  rw [trim, start, dropEndWhile_of_all solid]

theorem toString_chars (z : Int) : ∀ c ∈ (toString z).toList, c.isDigit = true ∨ c = '-' := by
  have digits : ∀ c ∈ Nat.toDigits 10 z.natAbs, c.isDigit = true ∨ c = '-' := fun c member =>
    .inl (List.all_eq_true.1 (all_isDigit_toDigits _) c member)
  rw [toList_toString]
  split
  · exact List.forall_mem_cons.2 ⟨.inr rfl, digits⟩
  · exact digits

/-- An integer is read from its own text. -/
theorem integer?_toString (z : Int) : integer? (toString z).toList = some z := by
  have number : Nat.toDigits 10 z.natAbs ≠ [] ∧
      (Nat.toDigits 10 z.natAbs).all Char.isDigit = true :=
    ⟨Nat.toDigits_ne_nil, all_isDigit_toDigits _⟩
  have plain : splitSign (Nat.toDigits 10 z.natAbs) = (false, Nat.toDigits 10 z.natAbs) := by
    rw [← List.append_nil (Nat.toDigits 10 z.natAbs), splitSign_digits number.1 number.2]
  rw [toList_toString]
  split
  · rename_i negative
    simp only [integer?, splitSign, if_pos number, if_true, ofDigits_toDigits]
    rw [Int.ofNat_natAbs_of_nonpos (Int.le_of_lt negative), Int.neg_neg]
  · rename_i positive
    simp only [integer?, plain, if_pos number, Bool.false_eq_true, if_false, ofDigits_toDigits]
    rw [Int.natAbs_of_nonneg (Int.not_lt.1 positive)]

namespace Value

/-- An input line without the line ends behind it. -/
def content (line : String) : String :=
  String.ofList (dropEndWhile isLineEnd line.toList)

variable {line other : String}

theorem ofLine_congr
    (same : dropEndWhile isLineEnd line.toList = dropEndWhile isLineEnd other.toList) :
    ofLine line = ofLine other := by
  simp only [ofLine, same]

theorem ofLine_append_newline (line : String) : ofLine (line ++ "\n") = ofLine line := by
  refine ofLine_congr ?_
  rw [String.toList_append, dropEndWhile_eq_rdropWhile]
  exact List.rdropWhile_concat_pos _ _ _ (by decide)

theorem ofLine_content (line : String) : ofLine (content line) = ofLine line := by
  refine ofLine_congr ?_
  rw [content, String.toList_ofList, dropEndWhile_eq_rdropWhile, List.rdropWhile_idempotent]

/-- A line is a number or its own content. -/
theorem ofLine_cases (line : String) :
    (∃ n, ofLine line = .integer n) ∨ (∃ r, ofLine line = .real r) ∨
      ofLine line = .text (content line) := by
  unfold ofLine
  dsimp only
  split
  · cases Binary64.ofNumeral? (trim (dropEndWhile isLineEnd line.toList)) with
    | none => exact .inr (.inr rfl)
    | some r => exact .inr (.inl ⟨r, rfl⟩)
  · cases (integer? (trim (dropEndWhile isLineEnd line.toList))).bind int64? with
    | none => exact .inr (.inr rfl)
    | some n => exact .inl ⟨n, rfl⟩

/-- A line without blanks is read as it stands. -/
theorem ofLine_of_solid (solid : ∀ c ∈ line.toList, isBlank c = false) :
    ofLine line =
      ((if '.' ∈ line.toList then (Binary64.ofNumeral? line.toList).map .real
        else ((integer? line.toList).bind int64?).map .integer).getD (.text line)) := by
  have noEnd : ∀ c ∈ line.toList, isLineEnd c = false := fun c member => by
    rw [← Bool.not_eq_true]
    intro ends
    cases (solid c member).symm.trans (isBlank_of_isLineEnd ends)
  simp only [ofLine, dropEndWhile_of_all noEnd, trim_of_solid solid, String.ofList_toList]

theorem ofLine_toText_integer (n : Int64) : ofLine (integer n).toText = integer n := by
  have chars := toString_chars n.toInt
  have solid : ∀ c ∈ (toString n.toInt).toList, isBlank c = false := fun c member => by
    rcases chars c member with digit | rfl
    · exact isBlank_of_isDigit digit
    · decide
  have noPoint : '.' ∉ (toString n.toInt).toList := fun member => by
    rcases chars '.' member with digit | minus
    · cases digit
    · cases minus
  rw [toText, ofLine_of_solid solid, if_neg noPoint, integer?_toString, Option.bind_some,
    int64?_toInt]
  rfl

theorem ofLine_toText_real (r : Binary64) :
    ofLine (real r).toText = if r.IsBare then text r.toText else real r := by
  rw [toText, ofLine_of_solid r.isBlank_toText]
  by_cases bare : r.IsBare
  · have noPoint : '.' ∉ r.toText.toList := fun member => r.point_mem_toText_iff.1 member bare
    rw [if_neg noPoint, r.integer?_toText, if_pos bare]
    rfl
  · rw [if_pos (r.point_mem_toText_iff.2 bare), Binary64.ofNumeral?_toText bare, if_neg bare]
    rfl

/-- The text that a line stands for stands for itself. -/
theorem ofLine_of_text {s : String} (found : ofLine line = text s) : ofLine s = text s := by
  rcases ofLine_cases line with ⟨n, integer⟩ | ⟨r, real⟩ | verbatim
  · cases found.symm.trans integer
  · cases found.symm.trans real
  · obtain rfl : s = content line := Value.text.inj (found.symm.trans verbatim)
    rw [ofLine_content, found]

/-- The value is a real that is written without a point. -/
def IsBare : Value → Prop
  | real r => r.IsBare
  | _ => False

instance : DecidablePred IsBare
  | real r => inferInstanceAs (Decidable r.IsBare)
  | integer _ | text _ | boolean _ | vector _ => inferInstanceAs (Decidable False)

/-- What is written for the value of a line is read as that value, or as the text of a real that is
written without a point. -/
theorem ofLine_toText (line : String) :
    ofLine (ofLine line).toText =
      if (ofLine line).IsBare then text (ofLine line).toText else ofLine line := by
  rcases ofLine_cases line with ⟨n, integer⟩ | ⟨r, real⟩ | verbatim
  · rw [integer, ofLine_toText_integer]
    rfl
  · rw [real, ofLine_toText_real]
    rfl
  · rw [verbatim]
    exact ofLine_of_text verbatim

/-- A value that was read and is written on a line of its own is read back from there. Only a real
without a point in its text, which is infinite or of one digit far from one, comes back as that
text; all integers and all other reals are kept. -/
theorem written_value_reads_back :
    (∀ line, ofLine ((ofLine line).toText ++ "\n") =
      if (ofLine line).IsBare then text (ofLine line).toText else ofLine line) ∧
    (∀ n : Int64, ofLine ((integer n).toText ++ "\n") = integer n) ∧
    (∀ r : Binary64, ofLine ((real r).toText ++ "\n") =
      if r.IsBare then text r.toText else real r) ∧
    ∀ r : Binary64, r.IsBare ↔ '.' ∉ r.toText.toList := by
  simp only [ofLine_append_newline]
  exact ⟨ofLine_toText, ofLine_toText_integer, ofLine_toText_real,
    fun r => by rw [r.point_mem_toText_iff, not_not]⟩

theorem real_without_point_reads_back_as_text :
    ¬ ∀ line, ofLine ((ofLine line).toText ++ "\n") = ofLine line := by
  intro always
  have kinds := congrArg kind (always "100000000000000000000.0")
  exact absurd kinds (by decide +kernel)

end Value

end GotoLang
