import LiteralGrammar.Proofs.Block.Containers
import LiteralGrammar.Proofs.Block.OneLine

/-!
Items beside a container and items among scalars. Beside a container the further lines of an item
hang below the text behind its dash; among scalars they stay where the item's own writing put them.
The two agree on items of one line and on no others.
-/
namespace LiteralGrammar.Block

theorem hungBlock_eq_iff (item : Text) : hungBlock item = flatBlock item ↔ '\n' ∉ item := by
  rw [Text.clean_iff, ← Text.moved_eq_iff (n := dash.length) (by decide), hungBlock, flatBlock,
    Prod.mk.injEq]
  simp

theorem hungItems_eq_iff {items : List Text} (nonempty : items ≠ [])
    (below : ∀ item ∈ items, ∀ line ∈ Text.laterLines item, ¬OpensItem line) :
    hungItems items = flatItems items ↔ ∀ item ∈ items, '\n' ∉ item := by
  have each : (∀ item ∈ items, hungBlock item = flatBlock item) ↔ ∀ item ∈ items, '\n' ∉ item :=
    forall₂_congr fun item _ => hungBlock_eq_iff item
  -- No further line opens an item, so the lines of either layout fall into one block per item.
  rw [← each, ← List.map_inj_left]
  constructor
  · intro same
    have cut := congrArg Text.lines same
    rw [lines_hungItems nonempty, lines_flatItems nonempty] at cut
    exact Text.blocks_unique (List.forall_mem_map.mpr fun item _ => headed_hungBlock item)
      (List.forall_mem_map.mpr fun item member => headed_flatBlock (below item member)) cut
  · intro same
    apply Text.lines_injective
    rw [lines_hungItems nonempty, lines_flatItems nonempty, same]

namespace Tree

def itemText (width : Nat) (beside : Bool) (t : Tree) : Text :=
  let own := t.layout width .block
  dash ++ if beside then Text.hang dash.length own else own

theorem layout_items {items : List Tree} (nonempty : items ≠ []) (width : Nat) (typeName : Text) :
    (sequence typeName items).layout width .block =
      Text.unlines (items.map (itemText width (items.any isContainer))) := by
  cases nested : items.any isContainer with
  | true =>
    rw [layout_hung nested, hungItems, List.map_map]
    rfl
  | false =>
    rw [layout_leaves nonempty nested, flatItems, List.map_map]
    rfl

theorem itemText_eq_iff (width : Nat) (s : Scalar) :
    itemText width true (scalar s) = itemText width false (scalar s) ↔ s.OneLine := by
  rw [← s.clean_written_iff width, ← Text.hang_eq_iff (n := dash.length) (by decide)]
  exact List.append_right_inj dash

theorem layout_scalars {ss : List Scalar} (nonempty : ss ≠ []) (width : Nat) (typeName : Text) :
    (sequence typeName (ss.map scalar)).layout width .block =
      flatItems (ss.map (·.written width)) := by
  have flat : (ss.map scalar).any isContainer = false := by simp [isContainer]
  rw [layout_leaves (by simpa) flat, List.map_map]
  rfl

theorem hungItems_scalars_iff {width : Nat} (positive : 0 < width) {ss : List Scalar}
    (nonempty : ss ≠ []) :
    hungItems (ss.map (·.written width)) = flatItems (ss.map (·.written width)) ↔
      ∀ s ∈ ss, s.OneLine := by
  have below : ∀ item ∈ ss.map (·.written width), ∀ line ∈ Text.laterLines item, ¬OpensItem line :=
    List.forall_mem_map.mpr fun s member =>
      leavesHeld positive (ss.map scalar) (scalar s) (List.mem_map_of_mem member) rfl
  rw [hungItems_eq_iff (by simpa) below, List.forall_mem_map]
  exact forall₂_congr fun s _ => s.clean_written_iff width

end Tree

namespace Writer

/-- A sequence is written item below item, and one container among them makes every item hang. A
scalar of one line looks the same either way, so a sequence of such scalars has the text that hanging
gives. With a string of several lines it never has. -/
theorem scalars_hang_iff_one_line (w : Writer) (typeName : Text) :
    (∀ items : List Tree, items ≠ [] → (Tree.sequence typeName items).Writable w.runtime →
      (Tree.sequence typeName items).height ≤ w.room →
      w.serializeTree (.sequence typeName items) = .ok (Text.unlines
        (items.map (Tree.itemText w.indentWidth (items.any Tree.isContainer))))) ∧
    (∀ s : Scalar, Tree.itemText w.indentWidth true (.scalar s) =
      Tree.itemText w.indentWidth false (.scalar s) ↔ s.OneLine) ∧
    (∀ ss : List Scalar, ss ≠ [] →
      (Tree.sequence typeName (ss.map .scalar)).Writable w.runtime →
      (Tree.sequence typeName (ss.map .scalar)).height ≤ w.room →
      (w.serializeTree (.sequence typeName (ss.map .scalar)) =
        .ok (hungItems (ss.map (·.written w.indentWidth))) ↔ ∀ s ∈ ss, s.OneLine)) := by
  refine ⟨?_, Tree.itemText_eq_iff w.indentWidth, ?_⟩
  · intro items nonempty writable fits
    exact (w.serializeTree_eq_ok_iff_fits _ _).mpr
      ⟨writable, fits, Tree.layout_items nonempty w.indentWidth typeName⟩
  · intro ss nonempty writable fits
    have written := (w.serializeTree_eq_ok_iff_fits _ _).mpr
      ⟨writable, fits, Tree.layout_scalars nonempty w.indentWidth typeName⟩
    rw [written, Except.ok.injEq, eq_comm]
    exact Tree.hungItems_scalars_iff w.indentWidth_pos nonempty

theorem scalars_hang_iff_one_line_mixed :
    let items : List Tree := [.text "a\nb", .list [], .scalar .null]
    let ss : List Scalar := [.text "a", .integer (-5), .null]
    items ≠ [] ∧ (Tree.sequence "tuple" items).Writable standard.runtime ∧
      (Tree.sequence "tuple" items).height ≤ standard.room ∧
      standard.serializeTree (.sequence "tuple" items) =
        .ok (Text.unlines (items.map (Tree.itemText 2 true))) ∧
      ss ≠ [] ∧ (Tree.sequence "tuple" (ss.map .scalar)).Writable standard.runtime ∧
      (Tree.sequence "tuple" (ss.map .scalar)).height ≤ standard.room ∧
      standard.serializeTree (.sequence "tuple" (ss.map .scalar)) =
        .ok (hungItems (ss.map (·.written 2))) := by
  intro items ss
  have nonempty : items ≠ [] := List.cons_ne_nil _ _
  have text_ok : standard.serializeTree (.sequence "tuple" items) =
      .ok "- |\n    a\n    b\n- []\n- null" := rfl
  obtain ⟨writable, fits, -⟩ := (serializeTree_eq_ok_iff_fits _ _ _).mp text_ok
  have flat_ok : standard.serializeTree (.sequence "tuple" (ss.map .scalar)) =
      .ok "- a\n- -5\n- null" := rfl
  obtain ⟨writable', fits', -⟩ := (serializeTree_eq_ok_iff_fits _ _ _).mp flat_ok
  have single : ∀ s ∈ ss, s.OneLine := by
    intro s member
    simp only [ss, List.mem_cons, List.not_mem_nil, or_false] at member
    rcases member with rfl | rfl | rfl
    · exact (by decide : '\n' ∉ "a".toList)
    · trivial
    · trivial
  obtain ⟨mixed, -, scalars⟩ := scalars_hang_iff_one_line standard "tuple"
  exact ⟨nonempty, writable, fits, mixed items nonempty writable fits, List.cons_ne_nil _ _,
    writable', fits', (scalars ss (List.cons_ne_nil _ _) writable' fits').mpr single⟩

/-- A literal block is indented by the width alone, unless a container stands beside it. -/
theorem literal_block_not_hung :
    let narrow : Writer := { maxDepth := 100, indentWidth := 1 }
    let ss : List Scalar := [.text "a\nb"]
    narrow.serializeTree (.list (ss.map .scalar)) = .ok "- |\n a\n b" ∧
      hungItems (ss.map (·.written 1)) = "- |\n   a\n   b".toList ∧
      "- |\n a\n b".toList ≠ "- |\n   a\n   b" ∧
      narrow.serializeTree (.list (ss.map .scalar ++ [.list []])) =
        .ok "- |\n   a\n   b\n- []" :=
  ⟨rfl, rfl, by decide, rfl⟩

end Writer

end LiteralGrammar.Block
