import LiteralGrammar.Block.Layout
import LiteralGrammar.Proofs.Text.Lines
import LiteralGrammar.Proofs.Text.Runs
import Mathlib.Data.List.Basic

/-!
Cutting a block apart. An item opens with a dash and an entry with a character that is not blank;
their further lines open with neither. So a block of items or entries gives back the text of each.
-/
namespace LiteralGrammar.Block

open Text (firstLine laterLines lines spaces indentLine Headed ofBlocks)

theorem maps_agree {α β γ δ : Type} {xs : List α} {ys : List β} {f : α → γ} {g : β → γ} {k : α → δ}
    {l : β → δ} (each : ∀ a ∈ xs, ∀ b ∈ ys, f a = g b → k a = l b) (same : xs.map f = ys.map g) :
    xs.map k = ys.map l := by
  induction xs generalizing ys with
  | nil =>
    cases ys with
    | nil => rfl
    | cons b ys => simp at same
  | cons a xs ih =>
    cases ys with
    | nil => simp at same
    | cons b ys =>
      obtain ⟨first, later⟩ := List.cons.inj same
      have rest := ih (fun a ha b hb => each a (.tail _ ha) b (.tail _ hb)) later
      rw [List.map_cons, List.map_cons, each a (.head _) b (.head _) first, rest]

theorem eq_of_maps {α γ : Type} {xs ys : List α} {f g : α → γ}
    (each : ∀ a ∈ xs, ∀ b ∈ ys, f a = g b → a = b) (same : xs.map f = ys.map g) : xs = ys := by
  have equal := maps_agree (k := id) (l := id) each same
  rwa [List.map_id, List.map_id] at equal

theorem head_indentLine {width : Nat} (positive : 0 < width) (line : Text) :
    ∀ c ∈ (indentLine width line).head?, Text.isBlank c = true := by
  intro c head
  unfold indentLine at head
  split at head
  case isTrue blank =>
    obtain ⟨rest, rfl⟩ := List.head?_eq_some_iff.mp head
    exact List.all_eq_true.mp blank c List.mem_cons_self
  case isFalse =>
    obtain ⟨n, rfl⟩ := Nat.exists_eq_succ_of_ne_zero (Nat.ne_of_gt positive)
    simp only [spaces, List.replicate_succ, List.cons_append, List.head?_cons,
      Option.mem_some_iff] at head
    rw [← head]
    exact Text.isBlank_space

def OpensItem (line : Text) : Prop := line.head? = some '-'

def flatBlock (item : Text) : Text × List Text := (dash ++ firstLine item, laterLines item)

def hungBlock (item : Text) : Text × List Text :=
  (dash ++ firstLine item, (laterLines item).map (spaces dash.length ++ ·))

theorem clean_dash : '\n' ∉ dash := by decide

theorem lines_flatItems {items : List Text} (nonempty : items ≠ []) :
    lines (flatItems items) = ofBlocks (items.map flatBlock) := by
  rw [flatItems, Text.lines_unlines_flatMap (by simpa), ofBlocks, List.flatMap_map,
    List.flatMap_map]
  simp only [Text.lines_append clean_dash, flatBlock]

theorem lines_hungItems {items : List Text} (nonempty : items ≠ []) :
    lines (hungItems items) = ofBlocks (items.map hungBlock) := by
  rw [hungItems, Text.lines_unlines_flatMap (by simpa), ofBlocks, List.flatMap_map,
    List.flatMap_map]
  have hung : ∀ item, lines (dash ++ Text.hang dash.length item) =
      (hungBlock item).1 :: (hungBlock item).2 := by
    intro item
    have split := Text.lines_hang dash.length item
    rw [Text.lines_eq] at split
    obtain ⟨first, later⟩ := List.cons.inj split
    rw [Text.lines_append clean_dash, first, later, hungBlock]
  simp only [hung]

theorem headed_flatBlock {item : Text} (below : ∀ line ∈ laterLines item, ¬OpensItem line) :
    Headed OpensItem (flatBlock item) :=
  ⟨rfl, below⟩

theorem headed_hungBlock (item : Text) : Headed OpensItem (hungBlock item) := by
  refine ⟨rfl, ?_⟩
  intro line member opens
  obtain ⟨source, -, rfl⟩ := List.mem_map.mp member
  exact absurd (Option.some.inj opens) (by decide)

theorem flatBlock_injective : Function.Injective flatBlock := by
  intro s t same
  obtain ⟨heads, tails⟩ := Prod.mk.inj same
  apply Text.lines_injective
  rw [Text.lines_eq s, Text.lines_eq t, List.append_cancel_left heads, tails]

theorem hungBlock_injective : Function.Injective hungBlock := by
  intro s t same
  obtain ⟨heads, tails⟩ := Prod.mk.inj same
  have later := List.map_injective_iff.mpr (fun _ _ => List.append_cancel_left) tails
  apply Text.lines_injective
  rw [Text.lines_eq s, Text.lines_eq t, List.append_cancel_left heads, later]

structure Entry where
  name : Text
  value : Text
  nested : Bool

/-- A name that is told from the lines of values, and from its own value. -/
structure IsLabel (name : Text) : Prop where
  starts : ∃ c ∈ name.head?, Text.isBlank c = false
  line : '\n' ∉ name
  colon : ':' ∉ name
  numeric : isNumeric name = false

namespace Entry

def text (width : Nat) (e : Entry) : Text := blockEntry width e.name e.value e.nested

def Below (e : Entry) : Prop := e.nested = true ∨ '\n' ∈ e.value

instance (e : Entry) : Decidable e.Below := by unfold Below; infer_instance

def block (width : Nat) (e : Entry) : Text × List Text :=
  if e.Below then (e.name ++ [':'], (lines e.value).map (indentLine width))
  else (e.name ++ ':' :: ' ' :: e.value, [])

theorem fst_block (width : Nat) (e : Entry) : ∃ rest, (e.block width).1 = e.name ++ ':' :: rest := by
  unfold block
  split
  · exact ⟨[], rfl⟩
  · exact ⟨_, rfl⟩

def Opens (line : Text) : Prop := ∃ c ∈ line.head?, Text.isBlank c = false

theorem lines_text {e : Entry} (label : IsLabel e.name) (width : Nat) :
    lines (e.text width) = (e.block width).1 :: (e.block width).2 := by
  have clean : '\n' ∉ e.name ++ [':'] := by simp [label.line]
  unfold text blockEntry block
  by_cases below : e.Below
  · have below' : ¬isNumeric e.name ∧ (e.nested ∨ '\n' ∈ e.value) := ⟨by simp [label.numeric], below⟩
    rw [if_pos below', if_pos below]
    change lines (e.name ++ [':', '\n'] ++ Text.indent width e.value) = _
    rw [show e.name ++ [':', '\n'] ++ Text.indent width e.value =
      (e.name ++ [':']) ++ '\n' :: Text.indent width e.value by simp, Text.lines_append_break,
      Text.lines_of_clean clean, Text.lines_indent]
    rfl
  · have beside : ¬(¬isNumeric e.name ∧ (e.nested ∨ '\n' ∈ e.value)) := fun both => below both.2
    have value : '\n' ∉ e.value := fun several => below (.inr several)
    rw [if_neg beside, if_neg below]
    change lines (e.name ++ [':', ' '] ++ e.value) = _
    rw [Text.lines_of_clean (by simp [label.line, value])]
    simp

theorem opens_append {name : Text} (starts : Opens name) (rest : Text) : Opens (name ++ rest) := by
  obtain ⟨c, head, visible⟩ := starts
  exact ⟨c, by rw [List.head?_append, Option.mem_def.mp head]; rfl, visible⟩

theorem headed_block {e : Entry} (label : IsLabel e.name) {width : Nat} (positive : 0 < width) :
    Headed Opens (e.block width) := by
  unfold block
  split
  · refine ⟨opens_append label.starts _, ?_⟩
    intro line member
    obtain ⟨source, -, rfl⟩ := List.mem_map.mp member
    intro ⟨c, head, visible⟩
    exact absurd (head_indentLine positive source c head) (by simp [visible])
  · exact ⟨opens_append label.starts _, by simp⟩

theorem block_unique {d e : Entry} (hd : IsLabel d.name) (he : IsLabel e.name) {width : Nat}
    (same : d.block width = e.block width) : d.name = e.name ∧ d.value = e.value := by
  unfold block at same
  by_cases below : d.Below
  · by_cases below' : e.Below
    · rw [if_pos below, if_pos below'] at same
      obtain ⟨heads, tails⟩ := Prod.mk.inj same
      have indented : Text.indent width d.value = Text.indent width e.value := by
        rw [Text.indent, tails, Text.indent]
      exact ⟨List.append_cancel_right heads, Text.indent_injective indented⟩
    · rw [if_pos below, if_neg below', Text.lines_eq] at same
      simp at same
  · by_cases below' : e.Below
    · rw [if_neg below, if_pos below', Text.lines_eq] at same
      simp at same
    · rw [if_neg below, if_neg below'] at same
      obtain ⟨names, values⟩ := Text.cut_unique hd.colon he.colon (Prod.mk.inj same).1
      exact ⟨names, (List.cons.inj values).2⟩

theorem lines_entries {entries : List Entry} (nonempty : entries ≠ [])
    (labels : ∀ e ∈ entries, IsLabel e.name) (width : Nat) :
    lines (Text.unlines (entries.map (text width))) = ofBlocks (entries.map (block width)) := by
  rw [Text.lines_unlines_flatMap (by simpa), ofBlocks, List.flatMap_map, List.flatMap_map]
  exact List.flatMap_congr fun e member => lines_text (labels e member) width

/-- The entries of a block, less the form in which each was laid out. -/
theorem entries_unique {ds es : List Entry} (hd : ∀ e ∈ ds, IsLabel e.name)
    (he : ∀ e ∈ es, IsLabel e.name) {width : Nat} (positive : 0 < width)
    (same : ofBlocks (ds.map (block width)) = ofBlocks (es.map (block width))) :
    ds.map (fun e => (e.name, e.value)) = es.map (fun e => (e.name, e.value)) := by
  have headed_d : ∀ b ∈ ds.map (block width), Headed Opens b :=
    List.forall_mem_map.mpr fun e member => headed_block (hd e member) positive
  have headed_e : ∀ b ∈ es.map (block width), Headed Opens b :=
    List.forall_mem_map.mpr fun e member => headed_block (he e member) positive
  refine maps_agree ?_ (Text.blocks_unique headed_d headed_e same)
  intro d in_d e in_e same
  obtain ⟨names, values⟩ := block_unique (hd d in_d) (he e in_e) same
  exact Prod.ext names values

end Entry

end LiteralGrammar.Block
