import LiteralGrammar.Proofs.Block.Name
import LiteralGrammar.Proofs.Block.ScalarReading
import LiteralGrammar.Proofs.Block.Walk

/-!
The lines of a laid out container, and what they give back: the text of each item, and the name and
text of each entry.
-/
namespace LiteralGrammar.Block.Tree

open Text (firstLine laterLines lines Headed ofBlocks)

theorem layout_leaf {t : Tree} (leaf : t.isContainer = false) (width : Nat) (mode : Layout) :
    t.layout width mode = t.layout width .block := by
  cases t with
  | scalar => rfl
  | foreign => rfl
  | sequence => cases leaf
  | mapping => cases leaf

def entry (width : Nat) (e : Key × Tree) : Entry :=
  ⟨e.1.name, e.2.layout width .block, e.2.isNested⟩

theorem lines_mapping {entries : List (Key × Tree)} (nonempty : entries ≠ [])
    (labels : ∀ e ∈ entries, IsLabel e.1.name) (width : Nat) (typeName : Text) :
    lines ((mapping typeName entries).layout width .block) =
      ofBlocks ((entries.map (entry width)).map (Entry.block width)) := by
  have texts : blockEntries width entries = (entries.map (entry width)).map (Entry.text width) := by
    rw [blockEntries_eq_map, List.map_map]
    apply List.map_congr_left
    intro e member
    rw [if_neg (by simp [(labels e member).numeric])]
    rfl
  rw [layout_entries nonempty, texts,
    Entry.lines_entries (by simpa) (List.forall_mem_map.mpr labels)]

theorem mapping_ne_empty {e : Key × Tree} {rest : List (Key × Tree)}
    (labels : ∀ d ∈ e :: rest, IsLabel d.1.name) (width : Nat) (typeName typeName' : Text) :
    (mapping typeName []).layout width .block ≠
      (mapping typeName' (e :: rest)).layout width .block := by
  intro same
  have cut := congrArg lines same
  rw [lines_mapping (List.cons_ne_nil e rest) labels] at cut
  obtain ⟨behind, head⟩ := (entry width e).fst_block width
  rw [← (List.cons.inj cut).1] at head
  have colon : ':' ∈ ("\x7b\x7d" : Text) := by
    change "\x7b\x7d".toList = _ at head
    rw [head]
    simp
  exact absurd colon (by decide)

theorem entries_of_layout {ds es : List (Key × Tree)} (hd : ∀ e ∈ ds, IsLabel e.1.name)
    (he : ∀ e ∈ es, IsLabel e.1.name) {width : Nat} (positive : 0 < width)
    {typeName typeName' : Text}
    (same : (mapping typeName ds).layout width .block = (mapping typeName' es).layout width .block) :
    ds.map (fun e => (e.1.name, e.2.layout width .block)) =
      es.map (fun e => (e.1.name, e.2.layout width .block)) := by
  cases ds with
  | nil =>
    cases es with
    | nil => rfl
    | cons => exact absurd same (mapping_ne_empty he width _ _)
  | cons d ds =>
    cases es with
    | nil => exact absurd same.symm (mapping_ne_empty hd width _ _)
    | cons e es =>
      have cut := congrArg lines same
      rw [lines_mapping (List.cons_ne_nil d ds) hd, lines_mapping (List.cons_ne_nil e es) he] at cut
      have unique := Entry.entries_unique (List.forall_mem_map.mpr hd) (List.forall_mem_map.mpr he)
        positive cut
      rw [List.map_map, List.map_map] at unique
      exact unique

theorem labels_of_named {entries : List (Text × Tree)} (named : ∀ e ∈ entries, isName e.1 = true) :
    ∀ e ∈ entries.map (fun e => ((.text e.1 : Key), e.2)), IsLabel e.1.name :=
  List.forall_mem_map.mpr fun e member => isLabel_of_isName (named e member)

theorem entries_of_dict {ds es : List (Text × Tree)} (hd : ∀ e ∈ ds, isName e.1 = true)
    (he : ∀ e ∈ es, isName e.1 = true) {width : Nat} (positive : 0 < width)
    (same : (dict ds).layout width .block = (dict es).layout width .block) :
    ds.map (fun e => (e.1, e.2.layout width .block)) =
      es.map (fun e => (e.1, e.2.layout width .block)) := by
  have entries := entries_of_layout (labels_of_named hd) (labels_of_named he) positive same
  rw [List.map_map, List.map_map] at entries
  exact entries

def itemBlock (nested : Bool) (item : Text) : Text × List Text :=
  if nested then hungBlock item else flatBlock item

theorem fst_itemBlock (nested : Bool) (item : Text) :
    (itemBlock nested item).1 = dash ++ firstLine item := by
  cases nested <;> rfl

theorem itemBlock_injective (nested : Bool) : Function.Injective (itemBlock nested) := by
  cases nested with
  | true => exact hungBlock_injective
  | false => exact flatBlock_injective

theorem leaf_of_any {items : List Tree} (flat : items.any isContainer = false) {t : Tree}
    (member : t ∈ items) : t.isContainer = false :=
  Bool.eq_false_iff.mpr (List.any_eq_false.mp flat t member)

theorem layout_leaves {items : List Tree} (nonempty : items ≠ [])
    (flat : items.any isContainer = false) (width : Nat) (typeName : Text) :
    (sequence typeName items).layout width .block = flatItems (items.map (layout width .block)) := by
  have leaves : items.map (layout width .inline) = items.map (layout width .block) :=
    List.map_congr_left fun t member => layout_leaf (leaf_of_any flat member) width .inline
  rw [layout_flat nonempty flat, leaves]

theorem lines_sequence {items : List Tree} (nonempty : items ≠ []) (width : Nat) (typeName : Text) :
    lines ((sequence typeName items).layout width .block) =
      ofBlocks ((items.map (layout width .block)).map (itemBlock (items.any isContainer))) := by
  cases nested : items.any isContainer with
  | true =>
    rw [layout_hung nested, lines_hungItems (by simpa)]
    rfl
  | false =>
    rw [layout_leaves nonempty nested, lines_flatItems (by simpa)]
    rfl

/-- No line of a leaf but its first could be the start of an item. -/
def LeavesHeld (width : Nat) (items : List Tree) : Prop :=
  ∀ t ∈ items, t.isContainer = false → ∀ line ∈ laterLines (t.layout width .block), ¬OpensItem line

theorem leavesHeld {width : Nat} (positive : 0 < width) (items : List Tree) :
    LeavesHeld width items := by
  intro t _ leaf line below opens
  cases t with
  | scalar s =>
    obtain ⟨l, rfl⟩ := s.laterLines_written width line below
    exact absurd (head_indentLine positive l '-' opens) (by decide)
  | foreign => cases below
  | sequence => cases leaf
  | mapping => cases leaf

theorem headed_items {width : Nat} (positive : 0 < width) (items : List Tree) :
    ∀ b ∈ (items.map (layout width .block)).map (itemBlock (items.any isContainer)),
      Headed OpensItem b := by
  rw [List.forall_mem_map, List.forall_mem_map]
  intro t member
  cases nested : items.any isContainer with
  | true => exact headed_hungBlock _
  | false => exact headed_flatBlock (leavesHeld positive items t member (leaf_of_any nested member))

theorem sequence_ne_empty (t : Tree) (rest : List Tree) (width : Nat) (typeName typeName' : Text) :
    (sequence typeName []).layout width .block ≠
      (sequence typeName' (t :: rest)).layout width .block := by
  intro same
  have cut := congrArg lines same
  rw [lines_sequence (List.cons_ne_nil t rest)] at cut
  have first := (List.cons.inj cut).1
  rw [fst_itemBlock] at first
  exact absurd (List.cons.inj first).1 (by decide)

theorem items_of_layout {xs ys : List Tree} {width : Nat} (positive : 0 < width)
    (forms : xs.map (fun t => firstLine (t.layout width .block)) =
      ys.map (fun t => firstLine (t.layout width .block)) → xs.any isContainer = ys.any isContainer)
    {typeName typeName' : Text}
    (same : (sequence typeName xs).layout width .block =
      (sequence typeName' ys).layout width .block) :
    xs.map (layout width .block) = ys.map (layout width .block) := by
  cases xs with
  | nil =>
    cases ys with
    | nil => rfl
    | cons => exact absurd same (sequence_ne_empty _ _ width _ _)
  | cons x xs =>
    cases ys with
    | nil => exact absurd same.symm (sequence_ne_empty _ _ width _ _)
    | cons y ys =>
      have cut := congrArg lines same
      rw [lines_sequence (List.cons_ne_nil x xs), lines_sequence (List.cons_ne_nil y ys)] at cut
      have blocks := Text.blocks_unique (headed_items positive _) (headed_items positive _) cut
      have firsts := congrArg (List.map Prod.fst) blocks
      simp only [List.map_map] at firsts
      have heads := maps_agree (k := fun t => firstLine (t.layout width .block))
        (l := fun t => firstLine (t.layout width .block)) (fun t _ u _ alike => by
          simp only [Function.comp_apply, fst_itemBlock] at alike
          exact List.append_cancel_left alike) firsts
      rw [forms heads] at blocks
      exact List.map_injective_iff.mpr (itemBlock_injective _) blocks

end LiteralGrammar.Block.Tree
