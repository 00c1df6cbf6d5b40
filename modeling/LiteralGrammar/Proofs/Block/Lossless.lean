import LiteralGrammar.Proofs.Block.Containers
import LiteralGrammar.Proofs.Block.Refinement
import LiteralGrammar.Proofs.Block.SafeScalar

/-!
Trees that their text determines: lists, mappings from names, and safe scalars. The first line of a
container is not that of a scalar, and a block of items or entries can be cut apart.
-/
namespace LiteralGrammar.Block

open Text (firstLine laterLines lines Headed ofBlocks)

namespace Tree

inductive Safe : Tree → Prop where
  | scalar {s : Scalar} (safe : s.Safe) : Safe (scalar s)
  | list {items : List Tree} (each : ∀ t ∈ items, Safe t) : Safe (list items)
  | dict {entries : List (Text × Tree)} (named : ∀ e ∈ entries, isName e.1 = true)
    (each : ∀ e ∈ entries, Safe e.2) : Safe (dict entries)

theorem writable_of_safe {r : Runtime} {t : Tree} (safe : t.Safe)
    (printed : ∀ n, t.HasInteger n → r.Prints n) : t.Writable r := by
  induction safe with
  | @scalar s _ =>
    refine .scalar ?_
    cases s with
    | integer n => exact printed n .scalar
    | _ => trivial
  | list _ ih =>
    exact .sequence "list" fun t member => ih t member fun n below => printed n (.item member below)
  | dict _ _ ih =>
    refine writable_dict fun e member => ih e member fun n below => ?_
    exact printed n (.value (List.mem_map_of_mem member) below)

theorem writable_iff_of_safe {r : Runtime} {t : Tree} (safe : t.Safe) :
    t.Writable r ↔ ∀ n, t.HasInteger n → r.Prints n :=
  ⟨fun writable _ inside => prints_of_writable writable inside, writable_of_safe safe⟩

variable {width : Nat}

theorem opensMapping_dict {entries : List (Text × Tree)} (named : ∀ e ∈ entries, isName e.1 = true)
    (width : Nat) : OpensMapping (firstLine ((dict entries).layout width .block)) := by
  cases entries with
  | nil => exact .inl rfl
  | cons e rest =>
    have cut := lines_mapping (by simp) (labels_of_named named) width "dict"
    rw [dict, Text.firstLine_of_lines cut]
    obtain ⟨behind, head⟩ := (entry width (.text e.1, e.2)).fst_block width
    exact .inr ⟨e.1, behind, named e List.mem_cons_self, head⟩

theorem not_container_of_safe {t : Tree} (safe : t.Safe) (leaf : t.isContainer = false) :
    ∃ s, s.Safe ∧ t = scalar s := by
  cases safe with
  | scalar safe => exact ⟨_, safe, rfl⟩
  | list => cases leaf
  | dict => cases leaf

theorem opensSequence_list (items : List Tree) (width : Nat) :
    OpensSequence (firstLine ((list items).layout width .block)) := by
  cases items with
  | nil => exact .inl rfl
  | cons t rest =>
    have cut := lines_sequence (List.cons_ne_nil t rest) width "list"
    rw [list, Text.firstLine_of_lines cut, fst_itemBlock]
    exact .inr ⟨_, rfl⟩

theorem opens_container {t : Tree} (safe : t.Safe) (container : t.isContainer = true) (width : Nat) :
    OpensSequence (firstLine (t.layout width .block)) ∨
      OpensMapping (firstLine (t.layout width .block)) := by
  cases safe with
  | scalar => cases container
  | list => exact .inl (opensSequence_list _ width)
  | dict named => exact .inr (opensMapping_dict named width)

theorem any_isContainer_of_layouts {xs ys : List Tree} (hx : ∀ t ∈ xs, t.Safe)
    (hy : ∀ t ∈ ys, t.Safe)
    (same : xs.map (fun t => firstLine (t.layout width .block)) =
      ys.map (fun t => firstLine (t.layout width .block)))
    (nested : xs.any isContainer = true) : ys.any isContainer = true := by
  by_contra flat
  obtain ⟨t, in_x, container⟩ := List.any_eq_true.mp nested
  have line : firstLine (t.layout width .block) ∈ ys.map (fun t => firstLine (t.layout width .block)) :=
    same ▸ List.mem_map_of_mem in_x
  obtain ⟨u, in_y, alike⟩ := List.mem_map.mp line
  rw [Bool.not_eq_true] at flat
  obtain ⟨s, safe, rfl⟩ := not_container_of_safe (hy u in_y) (leaf_of_any flat in_y)
  have opens := opens_container (hx t in_x) container width
  rw [← alike] at opens
  exact Scalar.not_opens_firstLine safe width opens

theorem items_of_list {xs ys : List Tree} (hx : ∀ t ∈ xs, t.Safe) (hy : ∀ t ∈ ys, t.Safe)
    (positive : 0 < width)
    (same : (list xs).layout width .block = (list ys).layout width .block) :
    xs.map (layout width .block) = ys.map (layout width .block) := by
  refine items_of_layout positive ?_ same
  intro heads
  exact Bool.eq_iff_iff.mpr
    ⟨any_isContainer_of_layouts hx hy heads, any_isContainer_of_layouts hy hx heads.symm⟩

theorem scalar_ne_container {s : Scalar} {t : Tree} (safe : s.Safe) (safe' : t.Safe)
    (container : t.isContainer = true) (width : Nat) :
    (scalar s).layout width .block ≠ t.layout width .block := by
  intro same
  have opens := opens_container safe' container width
  rw [← same] at opens
  exact Scalar.not_opens_firstLine safe width opens

theorem list_ne_dict (items : List Tree) {entries : List (Text × Tree)}
    (named : ∀ e ∈ entries, isName e.1 = true) (width : Nat) :
    (list items).layout width .block ≠ (dict entries).layout width .block := by
  intro same
  have opens := opensSequence_list items width
  rw [same] at opens
  exact not_opensMapping opens (opensMapping_dict named width)

theorem layout_injective (positive : 0 < width) {t u : Tree} (ht : t.Safe) (hu : u.Safe)
    (same : t.layout width .block = u.layout width .block) : t = u := by
  induction ht generalizing u with
  | scalar safe =>
    cases hu with
    | scalar safe' => rw [Scalar.written_injective safe safe' same]
    | list each => exact absurd same (scalar_ne_container safe (.list each) rfl width)
    | dict named each => exact absurd same (scalar_ne_container safe (.dict named each) rfl width)
  | list each ih =>
    cases hu with
    | scalar safe => exact absurd same.symm (scalar_ne_container safe (.list each) rfl width)
    | list each' =>
      have items := items_of_list each each' positive same
      have equal := eq_of_maps (fun t member u member' alike =>
        ih t member (each' u member') alike) items
      rw [equal]
    | dict named => exact absurd same (list_ne_dict _ named width)
  | dict named each ih =>
    cases hu with
    | scalar safe => exact absurd same.symm (scalar_ne_container safe (.dict named each) rfl width)
    | list => exact absurd same.symm (list_ne_dict _ named width)
    | dict named' each' =>
      have entries := entries_of_dict named named' positive same
      have equal := eq_of_maps (fun d member e member' alike => by
        obtain ⟨names, values⟩ := Prod.mk.inj alike
        exact Prod.ext names (ih d member (each' e member') values)) entries
      rw [equal]

end Tree

namespace Writer

/-- A safe tree has a text unless it is too deep or holds an integer too long to be printed, and no
two safe trees have the same text. -/
theorem safe_trees_lossless (w : Writer) {t u : Tree} (ht : t.Safe) (hu : u.Safe) :
    ((∃ text, w.serializeTree t = .ok text) ↔
      (∀ n, t.HasInteger n → w.runtime.Prints n) ∧ t.height ≤ w.room) ∧
    ∀ text, w.serializeTree t = .ok text → w.serializeTree u = .ok text → t = u := by
  constructor
  · rw [← Tree.writable_iff_of_safe ht]
    simp only [serializeTree_eq_ok_iff_fits]
    exact ⟨fun ⟨_, writable, fits, _⟩ => ⟨writable, fits⟩,
      fun ⟨writable, fits⟩ => ⟨_, writable, fits, rfl⟩⟩
  · intro text written written'
    obtain ⟨-, -, rfl⟩ := (w.serializeTree_eq_ok_iff_fits t _).mp written
    obtain ⟨-, -, same⟩ := (w.serializeTree_eq_ok_iff_fits u _).mp written'
    exact Tree.layout_injective w.indentWidth_pos ht hu same.symm

theorem safe_trees_lossless_dash :
    let t := Tree.dict [("k", .list [.text "a\n\n- b", .scalar (.truth true)]), ("_2", .text "0x")]
    let u := Tree.dict [("k", .list [.text "a\n", .list [.text "b"]]), ("_2", .text "0x")]
    t.Safe ∧ u.Safe ∧ t.height ≤ standard.room ∧
      ∃ text, standard.serializeTree t = .ok text ∧ standard.serializeTree u ≠ .ok text := by
  intro t u
  have letter : ∀ {written : Text} {c : Char}, c ∈ written → c.isAlpha = true →
      ∀ n, written ≠ Text.ofInt n := by
    intro written c member letter n same
    rcases Text.mem_ofInt (n := n) (same ▸ member) with digit | rfl
    · have := Text.toNat_of_isDigit digit
      have := Text.toNat_of_isAlpha letter
      omega
    · exact absurd letter (by decide)
  have hex : (Tree.text "0x").Safe :=
    .scalar fun _ => ⟨by decide, by decide, letter (c := 'x') (by decide) (by decide)⟩
  have word : (Tree.text "b").Safe :=
    .scalar fun _ => ⟨by decide, by decide, letter (c := 'b') (by decide) (by decide)⟩
  have block : ∀ s : Text, '\n' ∈ s → (Tree.text s).Safe := fun s several =>
    .scalar fun bare => absurd (clean_of_style (by rw [bare]; decide)) (not_not_intro several)
  have ht : t.Safe := by
    refine .dict (by decide) (List.forall_mem_cons.mpr ⟨.list ?_, by simpa using hex⟩)
    simpa using ⟨block _ (by decide), .scalar trivial⟩
  have hu : u.Safe := by
    refine .dict (by decide) (List.forall_mem_cons.mpr ⟨.list ?_, by simpa using hex⟩)
    simpa using ⟨block _ (by decide), .list (by simpa using word)⟩
  have different : t ≠ u := fun same => absurd (congrArg Tree.height same) (by decide)
  obtain ⟨written, apart⟩ := safe_trees_lossless standard ht hu
  have text_ok : ∃ text, standard.serializeTree t = .ok text := ⟨_, rfl⟩
  obtain ⟨-, fits⟩ := written.mp text_ok
  obtain ⟨text, wrote⟩ := text_ok
  exact ⟨ht, hu, fits, text, wrote, fun wrote' => different (apart text wrote wrote')⟩

end Writer

end LiteralGrammar.Block
