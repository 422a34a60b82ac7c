import GotoLang.Proofs.EvaluationFault
import GotoLang.Token.Scan

set_option autoImplicit false

namespace GotoLang

/-- The rest is the end of the text, with that many newlines before it. -/
def Behind (newlines : Nat) (rest text : List Char) : Prop :=
  ∃ used, used ++ rest = text ∧ used.count '\n' = newlines

namespace Behind

variable {newlines : Nat} {rest text : List Char}

theorem refl (text : List Char) : Behind 0 text text :=
  ⟨[], rfl, rfl⟩

theorem append {used : List Char} (noNewline : '\n' ∉ used) (rest : List Char) :
    Behind 0 rest (used ++ rest) :=
  ⟨used, rfl, List.count_eq_zero.2 noNewline⟩

theorem cons {c : Char} (noNewline : c ≠ '\n') (rest : List Char) : Behind 0 rest (c :: rest) :=
  append (List.not_mem_cons_of_ne_of_not_mem noNewline.symm List.not_mem_nil) rest

/-- A step that passes no newline leaves as many as there were. -/
theorem trans {middle : List Char} (first : Behind newlines middle text)
    (later : Behind 0 rest middle) : Behind newlines rest text := by
  obtain ⟨used, rfl, counted⟩ := first
  obtain ⟨more, rfl, none⟩ := later
  refine ⟨used ++ more, List.append_assoc used more rest, ?_⟩
  rw [List.count_append, counted, none, Nat.add_zero]

/-- A run of a class without newlines ends on its line. -/
theorem splitRun {inClass : Char → Bool} (other : inClass '\n' = false) (text : List Char) :
    Behind 0 (splitRun inClass text).2 text := by
  refine ⟨_, splitRun_append inClass text, List.count_eq_zero.2 fun member => ?_⟩
  cases other.symm.trans (List.all_eq_true.1 List.all_takeWhile _ member)

theorem count (behind : Behind newlines rest text) :
    newlines + rest.count '\n' = text.count '\n' := by
  obtain ⟨used, rfl, rfl⟩ := behind
  exact List.count_append.symm

theorem count_le (behind : Behind newlines rest text) :
    newlines + rest.count '\n' ≤ text.count '\n' :=
  Nat.le_of_eq behind.count

theorem suffix (behind : Behind newlines rest text) : rest <:+ text := by
  obtain ⟨used, rfl, -⟩ := behind
  exact List.suffix_append used rest

end Behind

theorem splitSign_behind (text : List Char) : Behind 0 (splitSign text).2 text := by
  unfold splitSign
  split
  · exact .cons (by decide) _
  · exact .cons (by decide) _
  · exact .refl _

theorem exponent?_behind {text rest : List Char} {e : Int}
    (found : exponent? text = some (e, rest)) : Behind 0 rest text := by
  cases text with
  | nil => cases found
  | cons mark text =>
    simp only [exponent?, Option.ite_none_right_eq_some, Option.ite_none_left_eq_some,
      Option.some.injEq, Prod.mk.injEq] at found
    obtain ⟨marks, _, _, rfl⟩ := found
    have noNewline : mark ≠ '\n' := by
      rcases marks with rfl | rfl <;> decide
    exact ((Behind.cons noNewline text).trans (splitSign_behind text)).trans
      (.splitRun (by decide) _)

theorem radixDigits?_behind {text digits rest : List Char} {mark : Char} {base : Nat}
    (found : radixDigits? text = some (mark, base, digits, rest)) : Behind 0 rest text := by
  cases text with
  | nil => cases found
  | cons c text =>
    simp only [radixDigits?] at found
    split at found
    · rename_i marks
      have noNewline : c ≠ '\n' := by
        rcases marks with rfl | rfl <;> decide
      simp only [Option.ite_none_left_eq_some, Option.some.injEq, Prod.mk.injEq] at found
      obtain ⟨_, _, _, _, rfl⟩ := found
      exact (Behind.cons noNewline text).trans (.splitRun (by decide) text)
    · simp only [Option.ite_none_right_eq_some, Option.ite_none_left_eq_some, Option.some.injEq,
        Prod.mk.injEq] at found
      obtain ⟨marks, _, _, _, _, rfl⟩ := found
      have noNewline : c ≠ '\n' := by
        rcases marks with rfl | rfl <;> decide
      exact (Behind.cons noNewline text).trans (.splitRun (by decide) text)

theorem realTail?_behind {whole text rest : List Char} {d : Decimal}
    (found : realTail? whole text = some (d, rest)) : Behind 0 rest text := by
  have exponentOnly : ∀ text, (exponent? text).map (fun split =>
      (Decimal.ofParts whole [] split.1, split.2)) = some (d, rest) → Behind 0 rest text := by
    intro text found
    obtain ⟨split, exponent, same⟩ := Option.map_eq_some_iff.1 found
    cases same
    exact exponent?_behind exponent
  unfold realTail? at found
  split at found
  · rename_i after
    have run : Behind 0 (splitRun Char.isDigit after).2 ('.' :: after) :=
      (Behind.cons (by decide) after).trans (.splitRun (by decide) after)
    dsimp only at found
    split at found
    · exact exponentOnly _ found
    · split at found
      · rename_i e tail exponent
        cases found
        exact run.trans (exponent?_behind exponent)
      · cases found
        exact run
  · exact exponentOnly _ found

/-- What is left is the end of the text, behind the newlines that were counted. -/
def Munch.Counts (text : List Char) : Munch → Prop
  | token _ rest => Behind 0 rest text
  | pass newlines rest => Behind newlines rest text
  | fault _ => True

theorem munchNumber_counts (text : List Char) : (munchNumber text).Counts text := by
  have run : Behind 0 (splitRun Char.isDigit text).2 text := .splitRun (by decide) text
  unfold munchNumber
  dsimp only
  split
  · rename_i radix
    split at radix
    · split
      · exact run.trans (radixDigits?_behind radix)
      · exact trivial
    · cases radix
  · split
    · rename_i real
      exact run.trans (realTail?_behind real)
    · exact run

theorem exists_colon_of_makesLabel {text : List Char} (makes : makesLabel text = true) :
    ∃ rest, text = ':' :: rest := by
  unfold makesLabel at makes
  split at makes
  · cases makes
  · exact ⟨_, rfl⟩
  · cases makes

theorem munchWord_counts (text : List Char) : (munchWord text).Counts text := by
  have run : Behind 0 (splitRun isWordChar text).2 text := .splitRun (by decide) text
  unfold munchWord
  dsimp only
  split
  · exact run
  · split
    · rename_i makes
      obtain ⟨rest, colon⟩ := exists_colon_of_makesLabel makes
      rw [colon] at run ⊢
      exact run.trans (.cons (by decide) rest)
    · exact run

/-- The newlines inside a comment are counted. -/
theorem munchComment_counts (text : List Char) : (munchComment text).Counts ('\x7b' :: text) := by
  have whole := splitRun_append (· != '\x7d') text
  unfold munchComment
  split
  · exact trivial
  · rename_i inside brace rest found
    have closing : brace = '\x7d' := by
      have first := List.head?_dropWhile_not (· != '\x7d') text
      rw [show text.dropWhile (· != '\x7d') = brace :: rest from congrArg Prod.snd found] at first
      simpa using first
    refine ⟨'\x7b' :: (inside ++ [brace]), ?_, ?_⟩
    · rw [← whole, found, List.cons_append, List.append_assoc]
      rfl
    · rw [closing, List.count_cons_of_ne (by decide), List.count_append,
        List.count_cons_of_ne (by decide), List.count_nil, Nat.add_zero]

theorem munch_counts (text : List Char) : (munch text).Counts text := by
  cases text with
  | nil => exact .refl []
  | cons c text =>
    unfold munch
    dsimp only
    split
    · rename_i newline
      exact ⟨['\n'], by rw [newline, List.singleton_append], rfl⟩
    rename_i noNewline
    split
    · exact .cons noNewline text
    split
    · rename_i brace
      rw [brace]
      exact munchComment_counts text
    split
    · exact munchNumber_counts (c :: text)
    split
    · exact munchWord_counts (c :: text)
    split
    · split
      · rename_i real
        exact realTail?_behind real
      · exact .cons noNewline text
    · split
      · rename_i s rest symbol
        have noNewline : '\n' ∉ s.spelling.toList := by cases s <;> decide
        rw [Symbol.eq_spelling_append_of_split? symbol]
        exact .append noNewline rest
      · exact trivial

/-- The line is one of those that a text goes over which begins on the first one. -/
def Spans (first : Nat) (text : List Char) (line : Nat) : Prop :=
  first ≤ line ∧ line ≤ first + text.count '\n'

theorem Spans.first (line : Nat) (text : List Char) : Spans line text line :=
  ⟨Nat.le_refl line, Nat.le_add_right line _⟩

/-- The lines of a text are among those of the text that it is the end of. -/
theorem Spans.mono {first line newlines : Nat} {rest text : List Char}
    (counts : newlines + rest.count '\n' ≤ text.count '\n')
    (spans : Spans (first + newlines) rest line) : Spans first text line := by
  obtain ⟨lower, upper⟩ := spans
  constructor <;> omega

/-- The tokens of a text, or the fault in it, are on its lines, and no token is on a line before that
of an earlier one. -/
theorem tokensFrom_lines (first : Nat) (text : List Char) :
    Yields (fun tokens => (∀ l ∈ tokens, Spans first text l.line) ∧
        tokens.Pairwise fun one other => one.line ≤ other.line)
      (fun e => Spans first text e.line) (tokensFrom first text) := by
  have counts := munch_counts text
  cases text with
  | nil =>
    rw [tokensFrom_nil]
    exact ⟨List.forall_mem_nil _, .nil⟩
  | cons c text =>
    cases found : munch (c :: text) with
    | token t rest =>
      rw [found] at counts
      have shorter : rest.length ≤ text.length := munch_rest_length_le (by rw [found]; rfl)
      have others := tokensFrom_lines first rest
      rw [tokensFrom_of_token found]
      apply others.map
      · intro tokens lines
        obtain ⟨within, sorted⟩ := lines
        refine ⟨List.forall_mem_cons.2 ⟨.first first _, ?_⟩, List.pairwise_cons.2 ⟨?_, sorted⟩⟩
        · exact fun l member => .mono counts.count_le (within l member)
        · exact fun l member => (within l member).1
      · exact fun e spans => .mono counts.count_le spans
    | pass newlines rest =>
      rw [found] at counts
      have shorter : rest.length ≤ text.length := munch_rest_length_le (by rw [found]; rfl)
      have others := tokensFrom_lines (first + newlines) rest
      rw [tokensFrom_of_pass found]
      apply others.mono
      · intro tokens lines
        exact ⟨fun l member => (lines.1 l member).mono counts.count_le, lines.2⟩
      · exact fun e spans => spans.mono counts.count_le
    | fault f =>
      rw [tokensFrom_of_fault found]
      exact .first first _
  termination_by text.length

end GotoLang
