import LiteralGrammar.Proofs.Block.Refinement
import LiteralGrammar.Proofs.Text.Rows

/-!
The text of a tree at different widths of indentation: the same lines, each moved right by a whole
number of levels that does not depend on the width.
-/
namespace LiteralGrammar.Block

open Text (Scales Row lines spaces)

theorem scales_writeText (t : Text) : Scales fun width => writeText width t := by
  unfold writeText
  cases ScalarStyle.ofText t with
  | literalBlock => exact (Scales.const "|").above_indent (.const t)
  | singleQuoted => exact .const _
  | doubleQuoted => exact .const _
  | bare => exact .const _

theorem Scalar.scales_written (s : Scalar) : Scales fun width => s.written width := by
  cases s with
  | text t => exact scales_writeText t
  | integer n => exact .const _
  | double x => exact .const _
  | truth b => exact .const _
  | null => exact .const _

theorem scales_blockEntry {f : Nat → Text} (value : Scales f) (name : Text) (nested : Bool) :
    Scales fun width => blockEntry width name (f width) nested := by
  by_cases lower : ¬isNumeric name ∧ (nested ∨ ∀ width, '\n' ∈ f width)
  · have laid : ∀ width, blockEntry width name (f width) nested =
        name ++ [':'] ++ '\n' :: Text.indent width (f width) := by
      intro width
      rw [blockEntry, if_pos ⟨lower.1, lower.2.imp_right fun several => several width⟩]
      simp
    simpa only [laid] using (Scales.const (name ++ [':'])).above_indent value
  · have laid : ∀ width, blockEntry width name (f width) nested = name ++ ": " ++ f width := by
      intro width
      refine if_neg fun both => lower ⟨both.1, both.2.imp_right fun several => ?_⟩
      exact value.several.resolve_right fun single => single width several
    simpa only [laid] using (Scales.const (name ++ ": ")).append value

theorem scales_inlineSequence {parts : List (Nat → Text)} (each : ∀ f ∈ parts, Scales f) :
    Scales fun width => inlineSequence (parts.map (· width)) :=
  ((Scales.const "[").append (.join ", " each)).append (.const "]")

theorem scales_flatItems {parts : List (Nat → Text)} (each : ∀ f ∈ parts, Scales f) :
    Scales fun width => flatItems (parts.map (· width)) := by
  have dashed : ∀ f ∈ parts.map (fun f width => dash ++ f width), Scales f :=
    List.forall_mem_map.mpr fun f member => (Scales.const dash).append (each f member)
  simpa [flatItems, Text.unlines, Function.comp_def] using Scales.join "\n" dashed

theorem scales_hungItems {parts : List (Nat → Text)} (each : ∀ f ∈ parts, Scales f) :
    Scales fun width => hungItems (parts.map (· width)) := by
  have hung : ∀ f ∈ parts.map (fun f width => dash ++ Text.hang dash.length (f width)), Scales f :=
    List.forall_mem_map.mpr fun f member =>
      (Scales.const dash).append ((each f member).hang dash.length)
  simpa [hungItems, Text.unlines, Function.comp_def] using Scales.join "\n" hung

namespace Tree

theorem scales_inlineEntries {entries : List (Key × Tree)}
    (each : ∀ e ∈ entries, ∀ mode, Scales fun width => e.2.layout width mode) :
    Scales fun width => inlineMapping (inlineEntries width entries) := by
  have parts : ∀ f ∈ entries.map (fun e width =>
      (e.1.name ++ ": " ++ e.2.layout width .inline : Text)), Scales f :=
    List.forall_mem_map.mpr fun e member =>
      (Scales.const (e.1.name ++ ": ")).append (each e member .inline)
  have laid := ((Scales.const "\x7b").append (.join ", " parts)).append (.const "\x7d")
  simpa [inlineMapping, inlineEntries_eq_map, Function.comp_def] using laid

theorem scales_blockEntries {entries : List (Key × Tree)}
    (each : ∀ e ∈ entries, ∀ mode, Scales fun width => e.2.layout width mode) :
    Scales fun width => Text.unlines (blockEntries width entries) := by
  have parts : ∀ f ∈ entries.map (fun e width => blockEntry width e.1.name
      (e.2.layout width (if isNumeric e.1.name then .inline else .block)) e.2.isNested),
      Scales f := List.forall_mem_map.mpr fun e member =>
    scales_blockEntry (each e member _) e.1.name e.2.isNested
  have laid := Scales.join "\n" parts
  simpa only [blockEntries_eq_map, Text.unlines, List.map_map, Function.comp_def] using laid

theorem scales_layout (t : Tree) (mode : Layout) : Scales fun width => t.layout width mode := by
  induction t generalizing mode with
  | scalar s => simpa only [layout] using s.scales_written
  | foreign typeName => simpa only [layout] using Scales.const []
  | sequence typeName items ih =>
    have each : ∀ mode, ∀ f ∈ items.map (fun t width => t.layout width mode), Scales f :=
      fun mode => List.forall_mem_map.mpr fun t member => ih t member mode
    have parts : ∀ mode width, itemLayouts width mode items =
        (items.map fun t width => t.layout width mode).map (· width) := by
      intro mode width
      rw [itemLayouts_eq_map, List.map_map]
      rfl
    simp only [layout, parts]
    cases mode with
    | inline => exact scales_inlineSequence (each .inline)
    | block =>
      dsimp only
      split
      · exact .const "[]"
      · split
        · exact scales_hungItems (each .block)
        · exact scales_flatItems (each .inline)
  | mapping typeName entries ih =>
    simp only [layout]
    cases mode with
    | inline => exact scales_inlineEntries ih
    | block =>
      dsimp only
      split
      · exact .const "\x7b\x7d"
      · exact scales_blockEntries ih

end Tree

namespace Writer

def flushLeft (line : Text) : Text := line.dropWhile (· = ' ')

theorem flushLeft_line (width : Nat) (r : Row) : flushLeft (r.line width) = flushLeft r.2 :=
  List.dropWhile_append_of_pos fun c member => by simp [List.eq_of_mem_replicate member]

/-- Each line of a tree's text stands a whole number of levels to the right, whatever the width and
the depth allowed; so texts of two widths have the same lines but for the spaces before them, and
faults do not depend on the width. -/
theorem width_scales_lines (t : Tree) :
    (∃ rows : List Row, rows ≠ [] ∧ (∀ r ∈ rows, '\n' ∉ r.2) ∧
      ∀ (w : Writer) (text : Text), w.serializeTree t = .ok text ↔
        t.Writable w.runtime ∧ t.height ≤ w.room ∧
          text = Text.unlines (rows.map (Row.line w.indentWidth))) ∧
    (∀ (v w : Writer) (a b : Text), v.serializeTree t = .ok a → w.serializeTree t = .ok b →
      (lines a).length = (lines b).length ∧ (lines a).map flushLeft = (lines b).map flushLeft) ∧
    (∀ v w : Writer, v.maxDepth = w.maxDepth → v.runtime = w.runtime → ∀ fault,
      v.serializeTree t = .error fault ↔ w.serializeTree t = .error fault) := by
  obtain ⟨first, rows, cut⟩ := t.scales_layout .block
  have rowed : ∀ width, lines (t.layout width .block) =
      ((0, first) :: rows).map (Row.line width) := cut
  refine ⟨⟨(0, first) :: rows, List.cons_ne_nil _ _, ?_, ?_⟩, ?_, ?_⟩
  · intro r member inside
    have line : r.line 1 ∈ lines (t.layout 1 .block) := rowed 1 ▸ List.mem_map_of_mem member
    exact Text.clean_of_mem_lines line (List.mem_append_right _ inside)
  · intro w text
    rw [serializeTree_eq_ok_iff_fits, ← rowed, Text.unlines_lines]
    simp only [eq_comm]
  · intro v w a b written written'
    obtain ⟨-, -, rfl⟩ := (serializeTree_eq_ok_iff_fits ..).mp written
    obtain ⟨-, -, rfl⟩ := (serializeTree_eq_ok_iff_fits ..).mp written'
    have flush : ∀ width, (lines (t.layout width .block)).map flushLeft =
        ((0, first) :: rows).map (flushLeft ∘ Prod.snd) := by
      intro width
      rw [rowed, List.map_map]
      exact List.map_congr_left fun r _ => flushLeft_line width r
    exact ⟨by rw [rowed, rowed, List.length_map, List.length_map], by rw [flush, flush]⟩
  · intro v w depth same fault
    rw [serializeTree_eq_error_iff, serializeTree_eq_error_iff, limit_congr depth same, same]

theorem width_scales_lines_brackets :
    let t := Tree.dict [("0", .list [.text "a\n\n b", .text "c"]), ("k\n z", .list [.text "p\nq"])]
    let narrow : Writer := { maxDepth := 9, indentWidth := 1 }
    let wide : Writer := { maxDepth := 9, indentWidth := 4 }
    let a : Text := "0: [|\n a\n\n  b, c]\nk\n z:\n - |\n  p\n  q"
    let b : Text := "0: [|\n    a\n\n     b, c]\nk\n z:\n    - |\n        p\n        q"
    narrow.serializeTree t = .ok a ∧ wide.serializeTree t = .ok b ∧
      (lines a).map flushLeft = (lines b).map flushLeft ∧
      narrow.serializeTree (.list [.foreign "set"]) = wide.serializeTree (.list [.foreign "set"]) := by
  intro t narrow wide a b
  have written : narrow.serializeTree t = .ok a := rfl
  have written' : wide.serializeTree t = .ok b := rfl
  have refused : narrow.serializeTree (.list [.foreign "set"]) =
      .error (.unsupported "set" [.item 0]) := rfl
  have refused' := ((width_scales_lines (.list [.foreign "set"])).2.2 narrow wide rfl rfl _).mp refused
  exact ⟨written, written', ((width_scales_lines t).2.1 narrow wide a b written written').2,
    refused.trans refused'.symm⟩

end Writer

end LiteralGrammar.Block
