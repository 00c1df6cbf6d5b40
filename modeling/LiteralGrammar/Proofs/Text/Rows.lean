import LiteralGrammar.Proofs.Text.Lines

/-!
Texts that depend on the width of indentation in the spaces before their lines only. Each line is a
row: how many levels it stands to the right, and what is behind. The first line stands at the
margin, so such texts can be put together, and indenting and hanging them gives such texts again.
-/
namespace LiteralGrammar.Text

abbrev Row := Nat × Text

def Row.line (width : Nat) (r : Row) : Text := spaces (width * r.1) ++ r.2

theorem spaces_append_line (width : Nat) (r : Row) :
    spaces width ++ r.line width = Row.line width (r.1 + 1, r.2) := by
  rw [Row.line, Row.line, Nat.mul_succ, Nat.add_comm, spaces_add, List.append_assoc]

theorem spaces_append_line_comm (width n : Nat) (r : Row) :
    spaces n ++ r.line width = Row.line width (r.1, spaces n ++ r.2) := by
  rw [Row.line, Row.line, ← List.append_assoc, ← List.append_assoc, ← spaces_add, ← spaces_add,
    Nat.add_comm]

def indentRow (r : Row) : Row := if isBlankLine r.2 then r else (r.1 + 1, r.2)

theorem indentLine_line (width : Nat) (r : Row) :
    indentLine width (r.line width) = (indentRow r).line width := by
  unfold indentLine indentRow
  rw [Row.line, isBlankLine_spaces_append]
  split
  · rfl
  · exact spaces_append_line width r

/-- For every width the lines are the same rows, behind a first line at the margin. -/
def Scales (f : Nat → Text) : Prop :=
  ∃ (first : Text) (rows : List Row), ∀ width, lines (f width) = first :: rows.map (Row.line width)

theorem line_zero (width : Nat) (t : Text) : Row.line width (0, t) = t := rfl

namespace Scales

theorem const (t : Text) : Scales fun _ => t := by
  refine ⟨firstLine t, (laterLines t).map (0, ·), fun width => ?_⟩
  have each : Row.line width ∘ (fun l : Text => (0, l)) = id := funext (line_zero width)
  rw [lines_eq, List.map_map, each, List.map_id]

variable {f g : Nat → Text}

theorem several (scales : Scales f) : (∀ width, '\n' ∈ f width) ∨ ∀ width, '\n' ∉ f width := by
  obtain ⟨first, rows, cut⟩ := scales
  have later : ∀ width, laterLines (f width) = rows.map (Row.line width) :=
    fun width => laterLines_of_lines (cut width)
  cases rows with
  | nil => exact .inr fun width => by rw [several_iff, later]; simp
  | cons r rows => exact .inl fun width => by rw [several_iff, later]; simp

theorem append (left : Scales f) (right : Scales g) : Scales fun width => f width ++ g width := by
  obtain ⟨a, as, cut⟩ := left
  obtain ⟨b, bs, cut'⟩ := right
  have first : ∀ width, firstLine (g width) = b := fun width => firstLine_of_lines (cut' width)
  have later : ∀ width, laterLines (g width) = bs.map (Row.line width) :=
    fun width => laterLines_of_lines (cut' width)
  rcases List.eq_nil_or_concat as with rfl | ⟨front, r, rfl⟩
  · refine ⟨a ++ b, bs, fun width => ?_⟩
    have cut : lines (f width) = [] ++ [a] := cut width
    rw [lines_append_of_last cut, first, later]
    rfl
  · refine ⟨a, front ++ (r.1, r.2 ++ b) :: bs, fun width => ?_⟩
    have cut := cut width
    rw [List.map_concat, List.concat_eq_append, ← List.cons_append] at cut
    rw [lines_append_of_last cut, first, later]
    simp [Row.line]

theorem above_indent (upper : Scales f) (lower : Scales g) :
    Scales fun width => f width ++ '\n' :: indent width (g width) := by
  obtain ⟨a, as, cut⟩ := upper
  obtain ⟨b, bs, cut'⟩ := lower
  refine ⟨a, as ++ ((0, b) :: bs).map indentRow, fun width => ?_⟩
  have indented : indentLine width ∘ Row.line width = Row.line width ∘ indentRow :=
    funext (indentLine_line width)
  rw [lines_append_break, lines_indent, cut, cut', ← line_zero width b, ← List.map_cons,
    List.map_map, indented, List.map_append, List.map_map]
  rfl

theorem hang (scales : Scales f) (n : Nat) : Scales fun width => Text.hang n (f width) := by
  obtain ⟨a, as, cut⟩ := scales
  refine ⟨a, as.map fun r => (r.1, spaces n ++ r.2), fun width => ?_⟩
  have moved : (spaces n ++ ·) ∘ Row.line width =
      Row.line width ∘ fun r => (r.1, spaces n ++ r.2) :=
    funext (spaces_append_line_comm width n)
  rw [lines_hang, firstLine_of_lines (cut width), laterLines_of_lines (cut width), List.map_map,
    List.map_map, moved]

theorem join (gap : Text) {parts : List (Nat → Text)} (each : ∀ f ∈ parts, Scales f) :
    Scales fun width => Text.join gap (parts.map (· width)) := by
  induction parts with
  | nil => exact const []
  | cons f rest ih =>
    obtain ⟨first, each⟩ := List.forall_mem_cons.mp each
    cases rest with
    | nil => simpa [Text.join] using first
    | cons g rest =>
      have joined := first.append ((const gap).append (ih each))
      simpa [Text.join, List.intercalate_cons_cons] using joined

end Scales

end LiteralGrammar.Text
