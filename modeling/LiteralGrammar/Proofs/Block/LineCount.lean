import LiteralGrammar.Proofs.Block.Hanging
import LiteralGrammar.Proofs.Block.Sharing
import Mathlib.Data.List.Forall2

/-!
The lines of a block. Without line feeds in its strings and keys, every leaf and every entry outside
inline values has one line of its own, in document order, and there are no others. What stands in
front of it on that line are the spaces and dashes of the containers around it.
-/
namespace LiteralGrammar.Block

open List (Forall₂)
open Text (lines firstLine laterLines spaces indentLine)

/-- The content stands at the end of the line, behind nothing but spaces and dashes. -/
def Shows (line content : Text) : Prop :=
  ∃ front, (∀ c ∈ front, c = ' ' ∨ c = '-') ∧ line = front ++ content

theorem shows_refl (content : Text) : Shows content content := ⟨[], by simp, rfl⟩

theorem shows_behind {front line content : Text} (marks : ∀ c ∈ front, c = ' ' ∨ c = '-')
    (shown : Shows line content) : Shows (front ++ line) content := by
  obtain ⟨inner, more, rfl⟩ := shown
  exact ⟨front ++ inner, List.forall_mem_append.mpr ⟨marks, more⟩, by rw [List.append_assoc]⟩

theorem shows_spaces {line content : Text} (shown : Shows line content) (n : Nat) :
    Shows (spaces n ++ line) content :=
  shows_behind (fun _ member => .inl (List.eq_of_mem_replicate member)) shown

theorem shows_dash {line content : Text} (shown : Shows line content) :
    Shows (dash ++ line) content :=
  shows_behind (by simp [dash]) shown

theorem shows_indentLine {line content : Text} (shown : Shows line content) (width : Nat) :
    Shows (indentLine width line) content := by
  unfold indentLine
  split
  · exact shown
  · exact shows_spaces shown width

theorem forall₂_map_left {ls contents : List Text} {move : Text → Text}
    (moves : ∀ {line content}, Shows line content → Shows (move line) content)
    (shown : Forall₂ Shows ls contents) : Forall₂ Shows (ls.map move) contents :=
  List.forall₂_map_left_iff.mpr (shown.imp fun _ _ => moves)

theorem forall₂_itemBlock {item : Text} {contents : List Text}
    (shown : Forall₂ Shows (lines item) contents) (nested : Bool) :
    Forall₂ Shows ((Tree.itemBlock nested item).1 :: (Tree.itemBlock nested item).2) contents := by
  rw [Text.lines_eq] at shown
  cases shown with
  | cons first later =>
    cases nested with
    | true => exact .cons (shows_dash first) (forall₂_map_left (shows_spaces · _) later)
    | false => exact .cons (shows_dash first) later

theorem forall₂_flatMap {α : Type} {as : List α} {found contents : α → List Text}
    (each : ∀ a ∈ as, Forall₂ Shows (found a) (contents a)) :
    Forall₂ Shows (as.flatMap found) (as.flatMap contents) := by
  induction as with
  | nil => exact .nil
  | cons a rest ih =>
    obtain ⟨first, later⟩ := List.forall_mem_cons.mp each
    exact List.rel_append first (ih later)

namespace Tree

mutual

def lineCount : Tree → Nat
  | scalar _ => 1
  | foreign _ => 1
  | sequence _ items => if items.isEmpty then 1 else itemsLineCount items
  | mapping _ entries => if entries.isEmpty then 1 else entriesLineCount entries

def itemsLineCount : List Tree → Nat
  | [] => 0
  | t :: rest => t.lineCount + itemsLineCount rest

def entriesLineCount : List (Key × Tree) → Nat
  | [] => 0
  | (key, t) :: rest =>
    (if isNumeric key.name then 1 else if t.isNested then 1 + t.lineCount else 1)
      + entriesLineCount rest

end

def entryContent (width : Nat) (name : Text) (value : Tree) (below : List Text) : List Text :=
  if isNumeric name then [name ++ ": " ++ value.layout width .inline]
  else if value.isNested then (name ++ ":") :: below
  else [name ++ ": " ++ value.layout width .block]

mutual

/-- The leaves and entries of a block, as they are written: empty containers are leaves, and what
stands inline under a numeric key belongs to its entry. -/
def contents (width : Nat) : Tree → List Text
  | scalar s => [s.written width]
  | foreign _ => [[]]
  | sequence _ items => if items.isEmpty then ["[]"] else itemContents width items
  | mapping _ entries => if entries.isEmpty then ["\x7b\x7d"] else entryContents width entries

def itemContents (width : Nat) : List Tree → List Text
  | [] => []
  | t :: rest => t.contents width ++ itemContents width rest

def entryContents (width : Nat) : List (Key × Tree) → List Text
  | [] => []
  | (key, t) :: rest =>
    entryContent width key.name t (t.contents width) ++ entryContents width rest

end

theorem itemContents_eq (width : Nat) (items : List Tree) :
    itemContents width items = items.flatMap (contents width) := by
  induction items with
  | nil => rfl
  | cons t rest ih => rw [itemContents, ih, List.flatMap_cons]

theorem entryContents_eq (width : Nat) (entries : List (Key × Tree)) :
    entryContents width entries =
      entries.flatMap fun e => entryContent width e.1.name e.2 (e.2.contents width) := by
  induction entries with
  | nil => rfl
  | cons e rest ih => rw [entryContents, ih, List.flatMap_cons]

theorem length_itemContents {width : Nat} {items : List Tree}
    (each : ∀ t ∈ items, (t.contents width).length = t.lineCount) :
    (itemContents width items).length = itemsLineCount items := by
  induction items with
  | nil => rfl
  | cons t rest ih =>
    obtain ⟨first, later⟩ := List.forall_mem_cons.mp each
    rw [itemContents, itemsLineCount, List.length_append, first, ih later]

theorem length_entryContents {width : Nat} {entries : List (Key × Tree)}
    (each : ∀ e ∈ entries, (e.2.contents width).length = e.2.lineCount) :
    (entryContents width entries).length = entriesLineCount entries := by
  induction entries with
  | nil => rfl
  | cons e rest ih =>
    obtain ⟨first, later⟩ := List.forall_mem_cons.mp each
    rw [entryContents, entriesLineCount, List.length_append, ih later, ← first, entryContent]
    split
    · rfl
    · split
      · rw [List.length_cons, Nat.add_comm 1]
      · rfl

theorem length_contents (width : Nat) (t : Tree) : (t.contents width).length = t.lineCount := by
  induction t with
  | scalar s => rfl
  | foreign typeName => rfl
  | sequence typeName items ih =>
    rw [contents, lineCount]
    split
    · rfl
    · exact length_itemContents ih
  | mapping typeName entries ih =>
    rw [contents, lineCount]
    split
    · rfl
    · exact length_entryContents ih

theorem clean_of_not_nested {t : Tree} (single : t.OneLine) (flat : t.isNested = false) (width : Nat) :
    '\n' ∉ t.layout width .block := by
  cases single with
  | scalar single => exact (Scalar.clean_written_iff _ width).mpr single
  | foreign typeName => simp [layout]
  | sequence => cases flat
  | @mapping typeName entries keys each =>
    cases entries with
    | nil => exact (by decide : '\n' ∉ "\x7b\x7d".toList)
    | cons => cases flat

theorem forall₂_entry {width : Nat} {e : Key × Tree} (clean : '\n' ∉ e.1.name) (single : e.2.OneLine)
    (below : Forall₂ Shows (lines (e.2.layout width .block)) (e.2.contents width)) :
    Forall₂ Shows (lines (entryText width e))
      (entryContent width e.1.name e.2 (e.2.contents width)) := by
  unfold entryContent
  by_cases numeric : isNumeric e.1.name = true
  · rw [if_pos numeric, Text.lines_of_clean ((clean_entryText_iff numeric width).mpr single),
      entryText_of_numeric numeric]
    exact .cons (shows_refl _) .nil
  · rw [if_neg numeric, entryText, if_neg numeric, blockEntry]
    cases nested : e.2.isNested with
    | true =>
      have heading : '\n' ∉ e.1.name ++ [':'] := by simp [clean]
      have cut : e.1.name ++ ":\n".toList = (e.1.name ++ [':']) ++ ['\n'] := by simp
      rw [if_pos ⟨numeric, .inl rfl⟩, if_pos rfl, cut, List.append_assoc, List.singleton_append,
        Text.lines_append_break, Text.lines_of_clean heading, Text.lines_indent]
      exact .cons (shows_refl _) (forall₂_map_left (shows_indentLine · width) below)
    | false =>
      have flat := clean_of_not_nested single nested width
      rw [if_neg (by simp [flat]), if_neg (by simp), Text.lines_of_clean (by simp [clean, flat])]
      exact .cons (shows_refl _) .nil

theorem forall₂_layout {t : Tree} (single : t.OneLine) (width : Nat) :
    Forall₂ Shows (lines (t.layout width .block)) (t.contents width) := by
  induction t with
  | scalar s =>
    cases single with
    | scalar single =>
      rw [layout, Text.lines_of_clean ((s.clean_written_iff width).mpr single)]
      exact .cons (shows_refl _) .nil
  | foreign typeName => exact .cons (shows_refl _) .nil
  | sequence typeName items ih =>
    cases single with
    | sequence _ each =>
      by_cases empty : items = []
      · subst empty
        exact .cons (shows_refl _) .nil
      · rw [lines_sequence empty, contents, if_neg (by simpa using empty), itemContents_eq,
          Text.ofBlocks, List.flatMap_map, List.flatMap_map]
        exact forall₂_flatMap fun t member => forall₂_itemBlock (ih t member (each t member)) _
  | mapping typeName entries ih =>
    cases single with
    | mapping _ keys each =>
      by_cases empty : entries = []
      · subst empty
        exact .cons (shows_refl _) .nil
      · rw [layout_entries empty, blockEntries_eq_map, Text.lines_unlines_flatMap (by simpa),
          List.flatMap_map, contents, if_neg (by simpa using empty), entryContents_eq]
        exact forall₂_flatMap fun e member =>
          forall₂_entry (keys e member) (each e member) (ih e member (each e member))

end Tree

namespace Writer

/-- A value without line feeds in its strings and keys takes as many lines as its tree counts, shared
containers at every place that holds them. Line by line these are the leaves and the entries outside
inline values, so none is lost or written twice, and no two share a line. -/
theorem lines_accounted (w : Writer) {t : Tree} (single : t.OneLine)
    (writable : t.Writable w.runtime) (fits : t.height ≤ w.room) :
    ∃ text, w.serializeTree t = .ok text ∧
      (∀ {ν : Type} [DecidableEq ν] (g : Graph ν) (root : Slot ν), Unfolds g [] root t →
        w.serialize g root = .ok text) ∧
      (lines text).length = t.lineCount ∧
      Forall₂ Shows (lines text) (t.contents w.indentWidth) := by
  have wrote := (w.serializeTree_eq_ok_iff_fits t _).mpr ⟨writable, fits, rfl⟩
  have shown := Tree.forall₂_layout single w.indentWidth
  refine ⟨_, wrote, ?_, ?_, shown⟩
  · intro ν _ g root unfold
    rw [w.serialize_of_unfolds unfold, wrote]
  · rw [shown.length_eq, Tree.length_contents]

theorem lines_accounted_held_twice :
    let v : Tree := .list [.list [], .scalar (.integer (-5))]
    let t : Tree := .mapping "dict" [(.integer 1, v), (.text "k", v)]
    let g : Graph Nat := fun id =>
      if id = 0 then .mapping "dict" [(.integer 1, .held 1), (.text "k", .held 1)]
      else if id = 1 then .sequence "list" [.held 2, .scalar (.integer (-5))]
      else .sequence "list" []
    let text : Text := "1: [[], -5]\nk:\n  - []\n  - -5"
    t.OneLine ∧ t.Writable standard.runtime ∧ t.height ≤ standard.room ∧
      standard.serializeTree t = .ok text ∧
      Unfolds g [] (.held 0) t ∧ standard.serialize g (.held 0) = .ok text ∧
      (lines text).length = t.lineCount ∧ t.lineCount = 4 ∧
      Forall₂ Shows (lines text) ["1: [[], -5]".toList, "k:".toList, "[]".toList, "-5".toList] := by
  intro v t g text
  have value : v.OneLine := by
    refine .sequence "list" (List.forall_mem_cons.mpr ⟨.sequence "list" (by simp), ?_⟩)
    exact List.forall_mem_singleton.mpr (.scalar trivial)
  have single : t.OneLine :=
    .mapping "dict" (by decide)
      (List.forall_mem_cons.mpr ⟨value, List.forall_mem_singleton.mpr value⟩)
  have below : Unfolds g [0] (.held 1) v :=
    ⟨1, _, rfl, by decide, rfl, ⟨2, [], rfl, by decide, rfl, trivial⟩, rfl, trivial⟩
  have unfold : Unfolds g [] (.held 0) t :=
    ⟨0, _, rfl, by simp, rfl, rfl, below, rfl, below, trivial⟩
  have text_ok : standard.serializeTree t = .ok text := rfl
  obtain ⟨writable, fits, -⟩ := (serializeTree_eq_ok_iff_fits _ _ _).mp text_ok
  obtain ⟨written, wrote, shared, counted, shown⟩ := lines_accounted standard single writable fits
  cases text_ok.symm.trans wrote
  exact ⟨single, writable, fits, text_ok, unfold, shared g (.held 0) unfold, counted, rfl, shown⟩

end Writer

end LiteralGrammar.Block
