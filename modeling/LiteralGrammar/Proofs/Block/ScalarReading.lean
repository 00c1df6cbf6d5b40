import LiteralGrammar.Block.Scalar
import LiteralGrammar.Proofs.Decimal.Notation
import LiteralGrammar.Proofs.Json.Unescape
import LiteralGrammar.Proofs.Text.Lines

/-!
Reading strings back. The first character of what is written tells the style, and each style can be
undone, so no two strings are written alike.
-/
namespace LiteralGrammar.Block

def halve : Text → Text
  | [] => []
  | '\'' :: '\'' :: rest => '\'' :: halve rest
  | c :: rest => c :: halve rest

def readText (width : Nat) (written : Text) : Text :=
  match written.head? with
  | some '|' => Text.dedent width (written.drop 2)
  | some '\'' => halve written.tail.dropLast
  | some '"' => Json.unquoted written
  | _ => written

theorem halve_plain {c : Char} (other : c ≠ '\'') (rest : Text) :
    halve (c :: rest) = c :: halve rest := by
  rw [halve]
  intro _ same
  exact absurd same other

theorem halve_doubled (t : Text) :
    halve (t.flatMap fun c => if c = '\'' then ['\'', '\''] else [c]) = t := by
  induction t with
  | nil => rfl
  | cons c t ih =>
    rw [List.flatMap_cons]
    by_cases h : c = '\''
    · rw [if_pos h, h]
      exact congrArg (List.cons '\'') ih
    · rw [if_neg h, List.singleton_append, halve_plain h, ih]

theorem readText_singleQuoted (width : Nat) (t : Text) : readText width (singleQuoted t) = t := by
  change halve (List.dropLast (_ ++ ['\''])) = t
  rw [List.dropLast_concat, halve_doubled]

theorem readText_quoted (width : Nat) (t : Text) : readText width (Json.quoted t) = t :=
  Json.unquoted_quoted t

theorem readText_literal (width : Nat) (t : Text) :
    readText width ('|' :: '\n' :: Text.indent width t) = t :=
  Text.dedent_indent width t

namespace ScalarStyle

theorem ofText_eq_literalBlock_iff {t : Text} : ofText t = literalBlock ↔ '\n' ∈ t := by
  unfold ofText
  by_cases several : '\n' ∈ t
  · simp [several]
  · rw [if_neg several]
    refine iff_of_false ?_ several
    split
    · split
      · simp
      · split <;> simp
    · simp

theorem ofText_eq_bare_iff {t : Text} : ofText t = bare ↔
    '\n' ∉ t ∧ ∃ first ∈ t.head?, ∃ last ∈ t.getLast?,
      needsQuotes first last = false ∧ needsEscapes t = false := by
  unfold ofText
  by_cases several : '\n' ∈ t
  · simp [several]
  · cases t with
    | nil => simp
    | cons c rest =>
      rw [if_neg several, List.getLast?_cons]
      generalize rest.getLast?.getD c = last
      simp only [List.head?_cons, Option.mem_some_iff, exists_eq_left']
      cases needsQuotes c last <;> cases needsEscapes (c :: rest) <;> simp [several]

theorem head_of_bare {t : Text} (style : ofText t = bare) :
    ∃ c rest, t = c :: rest ∧ c ∉ indicators ∧ Text.isBlank c = false ∧ c ≠ '"' := by
  obtain ⟨-, c, first, last, -, quotes, escapes⟩ := ofText_eq_bare_iff.mp style
  obtain ⟨rest, rfl⟩ := List.head?_eq_some_iff.mp first
  simp only [needsQuotes, Bool.or_eq_false_iff] at quotes
  refine ⟨c, rest, rfl, ?_, quotes.1.1.1, ?_⟩
  · intro member
    exact absurd (List.contains_iff_mem.mpr member) (Bool.eq_false_iff.mp quotes.1.1.2)
  · intro same
    simp [needsEscapes, same] at escapes

def marks : List Char := ['|', '\'', '"']

theorem unmarked_of_bare {t : Text} (style : ofText t = bare) :
    ∃ c rest, t = c :: rest ∧ c ∉ marks := by
  obtain ⟨c, rest, rfl, structural, -, quote⟩ := head_of_bare style
  refine ⟨c, rest, rfl, fun mark => ?_⟩
  simp only [marks, List.mem_cons, List.not_mem_nil, or_false] at mark
  rcases mark with rfl | rfl | rfl
  · exact structural (by decide)
  · exact structural (by decide)
  · exact quote rfl

end ScalarStyle

theorem readText_bare {t : Text} (style : ScalarStyle.ofText t = .bare) (width : Nat) :
    readText width t = t := by
  obtain ⟨c, rest, rfl, unmarked⟩ := ScalarStyle.unmarked_of_bare style
  simp only [ScalarStyle.marks, List.mem_cons, List.not_mem_nil, or_false, not_or] at unmarked
  simp [readText, unmarked]

theorem readText_writeText (width : Nat) (t : Text) : readText width (writeText width t) = t := by
  unfold writeText
  cases style : ScalarStyle.ofText t with
  | literalBlock => exact readText_literal width t
  | singleQuoted => exact readText_singleQuoted width t
  | doubleQuoted => exact readText_quoted width t
  | bare => exact readText_bare style width

theorem writeText_injective {width : Nat} {s t : Text}
    (same : writeText width s = writeText width t) : s = t := by
  rw [← readText_writeText width s, same, readText_writeText]

theorem clean_of_style {t : Text} (style : ScalarStyle.ofText t ≠ .literalBlock) : '\n' ∉ t :=
  mt ScalarStyle.ofText_eq_literalBlock_iff.mpr style

theorem head_writeText (width : Nat) (t : Text) :
    (ScalarStyle.ofText t = .bare ∧ writeText width t = t) ∨
      ∃ c ∈ ScalarStyle.marks, (writeText width t).head? = some c := by
  unfold writeText
  cases style : ScalarStyle.ofText t with
  | literalBlock => exact .inr ⟨'|', by decide, rfl⟩
  | singleQuoted => exact .inr ⟨'\'', by decide, rfl⟩
  | doubleQuoted => exact .inr ⟨'"', by decide, rfl⟩
  | bare => exact .inl ⟨rfl, rfl⟩

theorem clean_singleQuoted {t : Text} (clean : '\n' ∉ t) : '\n' ∉ singleQuoted t := by
  intro member
  simp only [singleQuoted, List.cons_append, List.mem_cons, List.mem_append,
    List.mem_flatMap, List.not_mem_nil, or_false, Char.reduceEq, false_or] at member
  obtain ⟨c, inside, written⟩ := member
  split at written
  · simp at written
  · exact clean (List.mem_singleton.mp written ▸ inside)

theorem clean_writeText {t : Text} (style : ScalarStyle.ofText t ≠ .literalBlock) (width : Nat) :
    '\n' ∉ writeText width t := by
  unfold writeText
  cases written : ScalarStyle.ofText t with
  | literalBlock => exact absurd written style
  | singleQuoted => exact clean_singleQuoted (clean_of_style style)
  | doubleQuoted => exact Json.clean_quoted t
  | bare => exact clean_of_style style

theorem writeText_literal {t : Text} (style : ScalarStyle.ofText t = .literalBlock) (width : Nat) :
    writeText width t = '|' :: '\n' :: Text.indent width t := by
  rw [writeText, style]

/-- Lines below the first come from a literal block. -/
theorem laterLines_writeText (width : Nat) (t : Text) :
    ∀ line ∈ Text.laterLines (writeText width t), ∃ l, line = Text.indentLine width l := by
  by_cases style : ScalarStyle.ofText t = .literalBlock
  · intro line member
    rw [writeText_literal style] at member
    change line ∈ (Text.lines (['|'] ++ '\n' :: Text.indent width t)).tail at member
    rw [Text.lines_append_break, Text.lines_of_clean (by decide), Text.lines_indent] at member
    obtain ⟨l, -, rfl⟩ := List.mem_map.mp member
    exact ⟨l, rfl⟩
  · simp [Text.laterLines_of_clean (clean_writeText style width)]

namespace Scalar

theorem numeric_written {s : Scalar} (other : ∀ t, s ≠ text t) (width : Nat) :
    Decimal.Numeric (s.written width) := by
  have words : ∀ word ∈ (["false", "true", "null"] : List Text), Decimal.Numeric word := by decide
  cases s with
  | text t => exact absurd rfl (other t)
  | integer n => exact .ofInt n
  | double x => exact .binary x
  | truth b =>
    cases b with
    | false => exact words "false" (by simp)
    | true => exact words "true" (by simp)
  | null => exact words "null" (by simp)

theorem clean_written {s : Scalar} (other : ∀ t, s ≠ text t) (width : Nat) : '\n' ∉ s.written width :=
  fun member => absurd (numeric_written other width _ member) (by decide)

theorem laterLines_written (s : Scalar) (width : Nat) :
    ∀ line ∈ Text.laterLines (s.written width), ∃ l, line = Text.indentLine width l := by
  by_cases is_text : ∃ t, s = text t
  · obtain ⟨t, rfl⟩ := is_text
    exact laterLines_writeText width t
  · have clean := clean_written (fun t same => is_text ⟨t, same⟩) width
    simp [Text.laterLines_of_clean clean]

end Scalar

end LiteralGrammar.Block
