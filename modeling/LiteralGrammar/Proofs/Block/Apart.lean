import LiteralGrammar.Proofs.Block.Containers
import LiteralGrammar.Proofs.Block.Refinement
import LiteralGrammar.Proofs.Block.ScalarReading
import Mathlib.Data.List.Forall2

/-!
Reading a block without knowing what is in it. Whatever the values are, the lines at the margin are
those of the entries or items themselves, and cutting before them gives back the text of each value.
-/
namespace LiteralGrammar.Block

open Text (firstLine laterLines lines Headed ofBlocks cutBefore)

namespace Entry

instance : DecidablePred Opens
  | [] => isFalse (by simp [Opens])
  | c :: _ => decidable_of_iff (Text.isBlank c = false) (by simp [Opens])

def ofBlock (width : Nat) (b : Text × List Text) : Text × Text :=
  (b.1.takeWhile (· ≠ ':'),
    if b.2 = [] then (b.1.dropWhile (· ≠ ':')).drop 2 else Text.dedent width (Text.unlines b.2))

theorem ofBlock_block {e : Entry} (label : IsLabel e.name) (width : Nat) :
    ofBlock width (e.block width) = (e.name, e.value) := by
  have before : ∀ c ∈ e.name, (decide (c ≠ ':')) = true := by
    intro c member
    simpa using fun same : c = ':' => label.colon (same ▸ member)
  unfold block ofBlock
  split
  · have cut : (lines e.value).map (Text.indentLine width) ≠ [] := by rw [Text.lines_eq]; simp
    rw [if_neg cut, List.takeWhile_append_of_pos before, ← Text.indent, Text.dedent_indent]
    simp
  · rw [if_pos rfl, List.takeWhile_append_of_pos before, List.dropWhile_append_of_pos before]
    simp

end Entry

def readEntries (width : Nat) (text : Text) : Option (List (Text × Text)) :=
  match cutBefore Entry.Opens (lines text) with
  | ([], blocks) => some (blocks.map (Entry.ofBlock width))
  | _ => none

def itemOfBlock (hung : Bool) (b : Text × List Text) : Text :=
  Text.unlines (b.1.drop dash.length ::
    if hung then b.2.map (·.drop dash.length) else b.2)

def readItems (hung : Bool) (text : Text) : Option (List Text) :=
  match cutBefore (dash <+: ·) (lines text) with
  | ([], blocks) => some (blocks.map (itemOfBlock hung))
  | _ => none

namespace Tree

theorem itemOfBlock_itemBlock (hung : Bool) (item : Text) :
    itemOfBlock hung (itemBlock hung item) = item := by
  have lost : (fun line : Text => line.drop dash.length) ∘ (Text.spaces dash.length ++ ·) = id :=
    funext fun line => by simp [Text.spaces]
  have first : (dash ++ firstLine item).drop dash.length = firstLine item := List.drop_left
  cases hung with
  | true =>
    simp only [itemOfBlock, itemBlock, hungBlock, if_true, List.map_map, lost, List.map_id, first]
    rw [← Text.lines_eq, Text.unlines_lines]
  | false =>
    simp only [itemOfBlock, itemBlock, flatBlock, Bool.false_eq_true, if_false, first]
    rw [← Text.lines_eq, Text.unlines_lines]

theorem headed_dash {width : Nat} (positive : 0 < width) (items : List Tree) :
    ∀ b ∈ (items.map (layout width .block)).map (itemBlock (items.any isContainer)),
      Headed (dash <+: ·) b := by
  intro b member
  obtain ⟨-, below⟩ := headed_items positive items b member
  obtain ⟨item, -, rfl⟩ := List.mem_map.mp member
  refine ⟨by rw [fst_itemBlock]; exact List.prefix_append _ _, fun line inside opens => ?_⟩
  obtain ⟨rest, rfl⟩ := opens
  exact below _ inside rfl

theorem headed_entries {width : Nat} (positive : 0 < width) {entries : List (Key × Tree)}
    (labels : ∀ e ∈ entries, IsLabel e.1.name) :
    ∀ b ∈ (entries.map (entry width)).map (Entry.block width), Headed Entry.Opens b :=
  List.forall_mem_map.mpr (List.forall_mem_map.mpr fun e member =>
    Entry.headed_block (labels e member) positive)

variable {width : Nat} (positive : 0 < width) (typeName : Text)
include positive

section

variable {entries : List (Key × Tree)} (nonempty : entries ≠ [])
  (labels : ∀ e ∈ entries, IsLabel e.1.name)
include nonempty labels

theorem opening_entries :
    (lines ((mapping typeName entries).layout width .block)).filter (fun l => Entry.Opens l) =
      entries.map fun e => ((entry width e).block width).1 := by
  rw [lines_mapping nonempty labels, Text.filter_ofBlocks (headed_entries positive labels),
    List.map_map, List.map_map]
  rfl

theorem readEntries_layout :
    readEntries width ((mapping typeName entries).layout width .block) =
      some (entries.map fun e => (e.1.name, e.2.layout width .block)) := by
  rw [readEntries, lines_mapping nonempty labels,
    Text.cutBefore_ofBlocks (headed_entries positive labels)]
  simp only [List.map_map]
  refine congrArg some (List.map_congr_left fun e member => ?_)
  exact Entry.ofBlock_block (e := entry width e) (labels e member) width

end

section

variable {items : List Tree} (nonempty : items ≠ [])
include nonempty

theorem opening_items :
    (lines ((sequence typeName items).layout width .block)).filter (fun l => dash <+: l) =
      items.map fun t => dash ++ firstLine (t.layout width .block) := by
  rw [lines_sequence nonempty, Text.filter_ofBlocks (headed_dash positive items), List.map_map,
    List.map_map]
  exact List.map_congr_left fun t _ => fst_itemBlock _ _

theorem readItems_layout :
    readItems (items.any isContainer) ((sequence typeName items).layout width .block) =
      some (items.map (layout width .block)) := by
  rw [readItems, lines_sequence nonempty, Text.cutBefore_ofBlocks (headed_dash positive items)]
  simp only [List.map_map]
  exact congrArg some (List.map_congr_left fun t _ => itemOfBlock_itemBlock _ _)

end

end Tree

namespace Writer

variable (w : Writer) {typeName : Text}

theorem serializeTree_item {items : List Tree}
    (writable : (Tree.sequence typeName items).Writable w.runtime)
    (room : (Tree.sequence typeName items).height ≤ w.room) :
    ∀ t ∈ items, w.serializeTree t = .ok (t.layout w.indentWidth .block) := by
  intro t member
  have lower := (Tree.itemsHeight_le_iff items _).mp (Nat.le_refl _) t member
  rw [Tree.height] at room
  exact (w.serializeTree_eq_ok_iff_fits t _).mpr
    ⟨Tree.writable_sequence_iff.mp writable t member, by omega, rfl⟩

theorem serializeTree_value {entries : List (Key × Tree)}
    (writable : (Tree.mapping typeName entries).Writable w.runtime)
    (room : (Tree.mapping typeName entries).height ≤ w.room) :
    ∀ e ∈ entries, w.serializeTree e.2 = .ok (e.2.layout w.indentWidth .block) := by
  intro e member
  have lower := (Tree.entriesHeight_le_iff entries _).mp (Nat.le_refl _) e member
  rw [Tree.height] at room
  exact (w.serializeTree_eq_ok_iff_fits e.2 _).mpr
    ⟨(Tree.writable_mapping_iff.mp writable).2 e member, by omega, rfl⟩

/-- The lines of a mapping that open at the margin are one for each entry, and the lines of a
sequence that open with a dash one for each item; and cutting there gives back each value's own
text, whatever is in it. -/
theorem blocks_cut_apart (w : Writer) :
    (∀ (typeName : Text) (entries : List (Key × Tree)), entries ≠ [] →
      (∀ e ∈ entries, IsLabel e.1.name) →
      (Tree.mapping typeName entries).Writable w.runtime →
      (Tree.mapping typeName entries).height ≤ w.room →
      ∃ text, w.serializeTree (.mapping typeName entries) = .ok text ∧
        List.Forall₂ (fun e line => e.1.name ++ [':'] <+: line) entries
          ((lines text).filter fun line => Entry.Opens line) ∧
        ∃ cut, readEntries w.indentWidth text = some cut ∧
          cut.map (fun e => (e.1, .ok e.2)) = entries.map fun e => (e.1.name, w.serializeTree e.2)) ∧
    (∀ (typeName : Text) (items : List Tree), items ≠ [] →
      (Tree.sequence typeName items).Writable w.runtime →
      (Tree.sequence typeName items).height ≤ w.room →
      ∃ text, w.serializeTree (.sequence typeName items) = .ok text ∧
        List.Forall₂ (fun t line => ∃ own, w.serializeTree t = .ok own ∧ line = dash ++ firstLine own)
          items ((lines text).filter fun line => dash <+: line) ∧
        ∃ cut, readItems (items.any Tree.isContainer) text = some cut ∧
          cut.map .ok = items.map w.serializeTree) := by
  constructor
  · intro typeName entries nonempty labels writable room
    have values := w.serializeTree_value writable room
    refine ⟨_, (w.serializeTree_eq_ok_iff_fits _ _).mpr ⟨writable, room, rfl⟩, ?_, _,
      Tree.readEntries_layout w.indentWidth_pos typeName nonempty labels, ?_⟩
    · rw [Tree.opening_entries w.indentWidth_pos typeName nonempty labels,
        List.forall₂_map_right_iff, List.forall₂_same]
      intro e _
      obtain ⟨behind, first⟩ := (Tree.entry w.indentWidth e).fst_block w.indentWidth
      exact ⟨behind, by rw [first]; simp [Tree.entry]⟩
    · rw [List.map_map]
      exact List.map_congr_left fun e member => by rw [values e member]; rfl
  · intro typeName items nonempty writable room
    have values := w.serializeTree_item writable room
    refine ⟨_, (w.serializeTree_eq_ok_iff_fits _ _).mpr ⟨writable, room, rfl⟩, ?_, _,
      Tree.readItems_layout w.indentWidth_pos typeName nonempty, ?_⟩
    · rw [Tree.opening_items w.indentWidth_pos typeName nonempty, List.forall₂_map_right_iff,
        List.forall₂_same]
      exact fun t member => ⟨_, values t member, rfl⟩
    · rw [List.map_map]
      exact List.map_congr_left fun t member => (values t member).symm

theorem blocks_cut_apart_forged :
    let forged := Tree.text "a\n\n- b\nk: c"
    let inner := Tree.dict [("x\ny", forged), ("5", .list [forged, .list []])]
    let entries : List (Key × Tree) := [(.text "k", forged), (.integer (-5), inner)]
    let items := [forged, .scalar .null]
    (∃ text, standard.serializeTree (.mapping "dict" entries) = .ok text ∧
      List.Forall₂ (fun e line => e.1.name ++ [':'] <+: line) entries
        ((lines text).filter fun line => Entry.Opens line) ∧
      ∃ cut, readEntries standard.indentWidth text = some cut ∧ cut.map (fun e => (e.1, .ok e.2)) =
        entries.map fun e => (e.1.name, standard.serializeTree e.2)) ∧
    (∃ text, standard.serializeTree (.sequence "tuple" items) = .ok text ∧
      List.Forall₂ (fun t line => ∃ own, standard.serializeTree t = .ok own ∧
          line = dash ++ firstLine own) items ((lines text).filter fun line => dash <+: line) ∧
      ∃ cut, readItems (items.any Tree.isContainer) text = some cut ∧
        cut.map .ok = items.map standard.serializeTree) := by
  intro forged inner entries items
  have plain : forged.Writable standard.runtime := .scalar trivial
  have empty : (Tree.list []).Writable standard.runtime := .sequence "list" (by simp)
  have brackets : (Tree.list [forged, .list []]).Writable standard.runtime :=
    .sequence "list" (by simpa using ⟨plain, empty⟩)
  have nested : inner.Writable standard.runtime :=
    Tree.writable_dict (by simpa using ⟨plain, brackets⟩)
  have labels : ∀ e ∈ entries, IsLabel e.1.name := by
    refine List.forall_mem_cons.mpr ⟨⟨⟨'k', rfl, by decide⟩, by decide, by decide, by decide⟩, ?_⟩
    simpa using ⟨⟨'-', rfl, by decide⟩, by decide, by decide, by decide⟩
  have printed : (Key.integer (-5)).Writable standard.runtime :=
    (Key.fault?_eq_none_iff _ [] _).mp (by decide)
  have writable : (Tree.mapping "dict" entries).Writable standard.runtime :=
    .mapping "dict" (List.forall_mem_cons.mpr ⟨trivial, List.forall_mem_singleton.mpr printed⟩)
      (by simpa [entries] using ⟨plain, nested⟩)
  have writable' : (Tree.sequence "tuple" items).Writable standard.runtime :=
    .sequence "tuple" (by simpa [items] using ⟨plain, .scalar trivial⟩)
  exact ⟨(blocks_cut_apart standard).1 "dict" entries (by simp [entries]) labels writable (by decide),
    (blocks_cut_apart standard).2 "tuple" items (by simp [items]) writable' (by decide)⟩

end Writer

end LiteralGrammar.Block
