import Mathlib.Data.List.Chain
import GotoLang.Proofs.SpellingMunch

set_option autoImplicit false

namespace GotoLang

/-- A comment ends at the first closing brace. -/
theorem munch_comment {inside : List Char} (closes : '\x7d' ∉ inside) (after : List Char) :
    munch ('\x7b' :: (inside ++ '\x7d' :: after)) = .pass (inside.count '\n') after := by
  have run : inside.all (· != '\x7d') = true :=
    List.all_eq_true.2 fun c member => bne_iff_ne.2 fun same => closes (same ▸ member)
  have brace : ∀ c ∈ ('\x7d' :: after).head?, (c != '\x7d') = false := by
    rintro _ ⟨⟩
    decide
  change munchComment _ = _
  rw [munchComment, splitRun_run_append run brace]

/-- Blanks, newlines and whole comments. -/
inductive Gap : List Char → Prop
  | nil : Gap []
  | blank {c : Char} {rest : List Char} (blank : c ∈ [' ', '\t', '\r', '\x0c', '\n'])
      (gap : Gap rest) : Gap (c :: rest)
  | comment {inside rest : List Char} (closes : '\x7d' ∉ inside) (gap : Gap rest) :
      Gap ('\x7b' :: (inside ++ '\x7d' :: rest))

namespace Gap

/-- Behind a token there is a gap or the end of the text. -/
theorem atGap {gap rest : List Char} (is : Gap gap) (divides : gap ≠ [] ∨ rest = []) :
    AtGap (gap ++ rest) := by
  intro c first
  cases is with
  | nil =>
    obtain rfl := divides.resolve_left (absurd rfl)
    cases first
  | blank blank _ =>
    cases first
    have opens : ∀ c ∈ [' ', '\t', '\r', '\x0c', '\n'], c ∈ gapOpeners :=
      forall_mem_of_all (by decide)
    exact opens c blank
  | comment _ _ =>
    cases first
    decide

/-- A gap gives no tokens and counts its newlines. -/
theorem tokensFrom {gap : List Char} (is : Gap gap) (line : Nat) (rest : List Char) :
    GotoLang.tokensFrom line (gap ++ rest) =
      GotoLang.tokensFrom (line + gap.count '\n') rest := by
  induction is generalizing line with
  | nil => rfl
  | @blank c behind blank _ ih =>
    have passed : munch (c :: (behind ++ rest)) =
        .pass (if c = '\n' then 1 else 0) (behind ++ rest) := by
      simp only [List.mem_cons, List.not_mem_nil, or_false] at blank
      rcases blank with rfl | rfl | rfl | rfl | rfl <;> rfl
    rw [List.cons_append, tokensFrom_of_pass passed, ih, List.count_cons, Nat.add_assoc,
      Nat.add_comm (if c = '\n' then 1 else 0)]
    simp only [beq_iff_eq]
  | @comment inside behind closes _ ih =>
    have passed := munch_comment closes (behind ++ rest)
    have newlines : ('\x7b' :: (inside ++ '\x7d' :: behind)).count '\n' =
        inside.count '\n' + behind.count '\n' := by
      rw [List.count_cons_of_ne (by decide), List.count_append, List.count_cons_of_ne (by decide)]
    rw [List.cons_append, List.append_assoc, List.cons_append, tokensFrom_of_pass passed, ih,
      newlines, Nat.add_assoc]

/-- What a label introduces is not changed by a gap before it. -/
theorem opensType {gap rest : List Char} (is : Gap gap) (noType : GotoLang.opensType rest = false) :
    GotoLang.opensType (gap ++ rest) = false := by
  induction is with
  | nil => exact noType
  | @blank c behind blank _ ih =>
    have blanks : ∀ c ∈ [' ', '\t', '\r', '\x0c', '\n'], isBlank c = true :=
      forall_mem_of_all (by decide)
    have passed : trimStart (c :: (behind ++ rest)) = trimStart (behind ++ rest) :=
      List.dropWhile_cons_of_pos (blanks c blank)
    rw [List.cons_append, GotoLang.opensType, passed]
    exact ih
  | comment _ _ _ => exact opensType_of_not_isAlpha (by decide) (by decide)

end Gap

/-- A token as it is written, and the gap behind it. -/
structure Piece where
  token : Token
  text : List Char
  gap : List Char
  spelled : Spells token text
  separated : Gap gap

namespace Piece

def source (p : Piece) : List Char :=
  p.text ++ p.gap

/-- A piece may stand before another: there is a gap between them, and what a label marks does not
start with a type. -/
def Before (p q : Piece) : Prop :=
  p.gap ≠ [] ∧ (p.token.isLabel = true → q.token.opensType = false)

end Piece

def sourceOf (pieces : List Piece) : List Char :=
  pieces.flatMap Piece.source

theorem sourceOf_cons (p : Piece) (rest : List Piece) :
    sourceOf (p :: rest) = p.text ++ (p.gap ++ sourceOf rest) := by
  rw [sourceOf, List.flatMap_cons, Piece.source, List.append_assoc]
  rfl

theorem atGap_behind {p : Piece} {rest : List Piece} (chain : (p :: rest).IsChain Piece.Before) :
    AtGap (p.gap ++ sourceOf rest) := by
  cases chain with
  | singleton => exact p.separated.atGap (.inr rfl)
  | cons_cons before _ => exact p.separated.atGap (.inl before.1)

theorem opensType_behind {p : Piece} {rest : List Piece}
    (chain : (p :: rest).IsChain Piece.Before) (label : p.token.isLabel = true) :
    opensType (p.gap ++ sourceOf rest) = false := by
  cases chain with
  | singleton => exact p.separated.opensType rfl
  | @cons_cons _ q rest before others =>
    refine p.separated.opensType ?_
    rw [sourceOf_cons]
    exact q.spelled.opensType (atGap_behind others) (before.2 label)

theorem tokensFrom_of_munch {line : Nat} {text rest : List Char} {t : Token}
    (found : munch text = .token t rest) :
    tokensFrom line text = (tokensFrom line rest).map (⟨t, line⟩ :: ·) := by
  cases text with
  | nil => cases found
  | cons c text => exact tokensFrom_of_token found

/-- The tokens of a text that stands behind another one. -/
theorem tokensFrom_sourceOf {pieces : List Piece} (chain : pieces.IsChain Piece.Before)
    (before : List Char) :
    tokensFrom (1 + before.count '\n') (sourceOf pieces) =
      .ok (pieces.mapIdx fun i p =>
        ⟨p.token, 1 + (before ++ sourceOf (pieces.take i)).count '\n'⟩) := by
  induction pieces generalizing before with
  | nil => exact tokensFrom_nil _
  | cons p rest ih =>
    have found := p.spelled.munch (atGap_behind chain) (opensType_behind chain)
    have others := ih chain.tail (before ++ p.source)
    have newlines : (before ++ p.source).count '\n' = before.count '\n' + p.gap.count '\n' := by
      rw [List.count_append, Piece.source, List.count_append,
        List.count_eq_zero.2 p.spelled.newline_not_mem, Nat.zero_add]
    rw [newlines, ← Nat.add_assoc] at others
    rw [sourceOf_cons, tokensFrom_of_munch found, p.separated.tokensFrom, others, List.mapIdx_cons]
    have later : ∀ i, before ++ p.source ++ sourceOf (rest.take i) =
        before ++ sourceOf ((p :: rest).take (i + 1)) := fun _ => List.append_assoc _ _ _
    simp only [later]
    rw [List.take_zero, show sourceOf [] = [] from rfl, List.append_nil]
    rfl

/-- The tokenizer gives back the tokens that a text was written with. -/
theorem tokenize_spelled (lead : List Char) (gap : Gap lead) (pieces : List Piece)
    (chain : pieces.IsChain Piece.Before) :
    tokenize (String.ofList (lead ++ sourceOf pieces)) =
      .ok (pieces.mapIdx fun i p =>
        ⟨p.token, 1 + (lead ++ sourceOf (pieces.take i)).count '\n'⟩) := by
  rw [tokenize, String.toList_ofList, gap.tokensFrom]
  exact tokensFrom_sourceOf chain lead

/-- A comment over two lines, a label, a reserved word in mixed letter cases and an octal number. -/
theorem tokenize_spelled_over_lines :
    tokenize "\x7ba\nb\x7d Top:\nWRite 017" =
      .ok [⟨.label "Top", 2⟩, ⟨.keyword .write, 3⟩, ⟨.integer 15, 3⟩] := by
  have name : IsName ['T', 'o', 'p'] :=
    { letter := ⟨'T', ['o', 'p'], rfl, by decide⟩
      inside := by decide
      free := fun k => by cases k <;> decide }
  let label : Piece := ⟨_, _, ['\n'], .label name, .blank (by decide) .nil⟩
  let word : Piece := ⟨.keyword .write, ['W', 'R', 'i', 't', 'e'], [' '], .keyword (by decide),
    .blank (by decide) .nil⟩
  have octal : Spells (.integer 15) ('0' :: ['1', '7']) :=
    .octal (by decide) (by decide) (by decide)
  let number : Piece := ⟨.integer 15, _, [], octal, .nil⟩
  have lead : Gap ('\x7b' :: (['a', '\n', 'b'] ++ '\x7d' :: [' '])) :=
    .comment (by decide) (.blank (by decide) .nil)
  have chain : [label, word, number].IsChain Piece.Before :=
    .cons_cons ⟨List.cons_ne_nil _ _, fun _ => rfl⟩
      (.cons_cons ⟨List.cons_ne_nil _ _, fun _ => rfl⟩ (.singleton _))
  have text : String.ofList ('\x7b' :: (['a', '\n', 'b'] ++ '\x7d' :: [' ']) ++
      sourceOf [label, word, number]) = "\x7ba\nb\x7d Top:\nWRite 017" := rfl
  rw [← text, tokenize_spelled _ lead _ chain]
  rfl

end GotoLang
