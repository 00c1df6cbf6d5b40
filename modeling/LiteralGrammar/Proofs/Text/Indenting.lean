import LiteralGrammar.Proofs.Text.Lines

/-!
Indenting as an operation on texts. It can be undone, and the texts that it gives are exactly those
with a margin; it goes through line breaks, and two indentings add up to one.
-/
namespace LiteralGrammar.Text

def HasMargin (width : Nat) (t : Text) : Prop :=
  ∀ line ∈ lines t, isBlankLine line = false → spaces width <+: line

theorem indentLine_of_blank {line : Text} (blank : isBlankLine line = true) (width : Nat) :
    indentLine width line = line := by
  rw [indentLine, if_pos blank]

theorem indentLine_of_visible {line : Text} (visible : isBlankLine line = false) (width : Nat) :
    indentLine width line = spaces width ++ line := by
  rw [indentLine, visible]
  rfl

theorem spaces_isPrefix_indentLine {width : Nat} {line : Text}
    (visible : isBlankLine (indentLine width line) = false) :
    spaces width <+: indentLine width line := by
  rw [isBlankLine_indentLine] at visible
  rw [indentLine_of_visible visible]
  exact List.prefix_append _ _

theorem indentLine_indentLine (v w : Nat) (line : Text) :
    indentLine v (indentLine w line) = indentLine (v + w) line := by
  cases kind : isBlankLine line with
  | true => rw [indentLine_of_blank kind, indentLine_of_blank kind, indentLine_of_blank kind]
  | false =>
    have moved : isBlankLine (indentLine w line) = false := by rw [isBlankLine_indentLine, kind]
    rw [indentLine_of_visible moved, indentLine_of_visible kind, indentLine_of_visible kind,
      spaces_add, List.append_assoc]

theorem indentLine_dedentLine {width : Nat} {line : Text}
    (margin : isBlankLine line = false → spaces width <+: line) :
    indentLine width (dedentLine width line) = line := by
  cases kind : isBlankLine line with
  | true =>
    rw [dedentLine, if_pos kind]
    exact indentLine_of_blank kind width
  | false =>
    obtain ⟨rest, rfl⟩ := margin kind
    -- Behind a margin the line is not blank either, so it is the indented form of what is there.
    have visible : isBlankLine rest = false := by rwa [isBlankLine_spaces_append] at kind
    rw [← indentLine_of_visible visible, dedentLine_indentLine]

theorem lines_dedent (width : Nat) (t : Text) :
    lines (dedent width t) = (lines t).map (dedentLine width) := by
  refine lines_unlines ?_ (by rw [lines_eq]; simp)
  intro line member
  obtain ⟨source, inside, rfl⟩ := List.mem_map.mp member
  have clean := clean_of_mem_lines inside
  unfold dedentLine
  split
  · exact clean
  · exact fun member => clean (List.mem_of_mem_drop member)

theorem hasMargin_indent (width : Nat) (t : Text) : HasMargin width (indent width t) := by
  intro line member visible
  rw [lines_indent] at member
  obtain ⟨source, -, rfl⟩ := List.mem_map.mp member
  exact spaces_isPrefix_indentLine visible

theorem indent_dedent_iff (width : Nat) (t : Text) :
    indent width (dedent width t) = t ↔ HasMargin width t := by
  constructor
  · intro same
    rw [← same]
    exact hasMargin_indent width _
  · intro margin
    have each : ∀ line ∈ lines t, (indentLine width ∘ dedentLine width) line = id line :=
      fun line member => indentLine_dedentLine (margin line member)
    apply lines_injective
    rw [lines_indent, lines_dedent, List.map_map, List.map_congr_left each, List.map_id]

theorem indent_append_break (width : Nat) (s t : Text) :
    indent width (s ++ '\n' :: t) = indent width s ++ '\n' :: indent width t := by
  apply lines_injective
  rw [lines_append_break, lines_indent, lines_indent, lines_indent, lines_append_break,
    List.map_append]

theorem indent_indent (v w : Nat) (t : Text) : indent v (indent w t) = indent (v + w) t := by
  have each : indentLine v ∘ indentLine w = indentLine (v + w) :=
    funext fun line => indentLine_indentLine v w line
  apply lines_injective
  rw [lines_indent, lines_indent, lines_indent, List.map_map, each]

theorem map_isBlankLine_indent (width : Nat) (t : Text) :
    (lines (indent width t)).map isBlankLine = (lines t).map isBlankLine := by
  have each : isBlankLine ∘ indentLine width = isBlankLine :=
    funext fun line => isBlankLine_indentLine width line
  rw [lines_indent, List.map_map, each]

/-- For every width, moving the lines back left undoes indenting, and indenting undoes that exactly
for the texts with a margin. A line break can be indented around; indenting twice moves by the sum.
The lines stay as many, each is blank exactly if it was, and the others start with the spaces. -/
theorem indent_undone_and_added (w v : Nat) (a b : Text) :
    dedent w (indent w a) = a ∧
    (indent w (dedent w b) = b ↔ HasMargin w b) ∧
    indent w (a ++ '\n' :: b) = indent w a ++ '\n' :: indent w b ∧
    indent v (indent w a) = indent (v + w) a ∧
    (lines (indent w a)).length = (lines a).length ∧
    (lines (indent w a)).map isBlankLine = (lines a).map isBlankLine ∧
    HasMargin w (indent w a) := by
  have count : (lines (indent w a)).length = (lines a).length := by
    rw [lines_indent, List.length_map]
  exact ⟨dedent_indent w a, indent_dedent_iff w b, indent_append_break w a b, indent_indent v w a,
    count, map_isBlankLine_indent w a, hasMargin_indent w a⟩

/-- A next-line character is blank and ends no line; a zero-width space is not blank. -/
example : indent 2 "a\n\u0085\n\u200b\n".toList = "  a\n\u0085\n  \u200b\n".toList := by decide

end LiteralGrammar.Text
