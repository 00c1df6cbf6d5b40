import LiteralGrammar.Proofs.Block.Containers
import LiteralGrammar.Proofs.Block.Refinement
import LiteralGrammar.Proofs.Block.Strings
import LiteralGrammar.Proofs.Rule.Readback
import LiteralGrammar.RuleSet

/-!
Reading a grammar back. The block of the document is cut into its rules, and each rule into its
entries; three of them determine the rule.
-/
namespace LiteralGrammar

namespace Rule

theorem height_toTree_le (r : Rule) : r.toTree.height ≤ 3 := by
  have captures : (Block.Tree.dict (r.captures.map fun e =>
      (Text.ofNat e.1, .dict [("name", .text e.2)]))).height ≤ 2 := by
    rw [Block.Tree.height_dict_le_iff _ 1, List.forall_mem_map]
    intro e _
    exact (Block.Tree.height_dict_le_iff _ 0).mpr (by simp [Block.Tree.text, Block.Tree.height])
  have patterns : (Block.Tree.list (r.references.map fun reference =>
      .dict [("include", .text reference)])).height ≤ 2 := by
    rw [Block.Tree.height_list_le_iff _ 1, List.forall_mem_map]
    intro t _
    exact (Block.Tree.height_dict_le_iff _ 0).mpr (by simp [Block.Tree.text, Block.Tree.height])
  refine (Block.Tree.height_dict_le_iff _ 2).mpr ?_
  simp only [List.forall_mem_cons, List.not_mem_nil, false_implies, implies_true, and_true]
  exact ⟨Nat.zero_le _, Nat.zero_le _, Nat.zero_le _, Nat.zero_le _, captures, patterns⟩

theorem writable_toTree (r : Rule) (runtime : Block.Runtime) : r.toTree.Writable runtime := by
  have text := Block.Tree.writable_text runtime
  have single : ∀ name t, (Block.Tree.dict [(name, .text t)]).Writable runtime := by
    intro name t
    exact Block.Tree.writable_dict (List.forall_mem_singleton.mpr (text t))
  refine Block.Tree.writable_dict ?_
  simp only [List.forall_mem_cons, List.not_mem_nil, false_implies, implies_true, and_true]
  refine ⟨text _, text _, text _, text _, ?_, ?_⟩
  · exact Block.Tree.writable_dict (List.forall_mem_map.mpr fun e _ => single "name" e.2)
  · exact .sequence "list" (List.forall_mem_map.mpr fun t _ => single "include" t)

theorem unique_of_layout {r s : Rule} (built_r : r.Built) (built_s : s.Built) {width : Nat}
    (positive : 0 < width)
    (same : r.toTree.layout width .block = s.toTree.layout width .block) : r = s := by
  have entries := Block.Tree.entries_of_dict (List.all_eq_true.mp rfl) (List.all_eq_true.mp rfl)
    positive same
  simp only [List.map_cons, List.cons.injEq, Prod.mk.injEq] at entries
  obtain ⟨⟨-, description⟩, ⟨-, opening⟩, ⟨-, contentName⟩, -⟩ := entries
  exact built_unique built_r built_s (Block.writeText_injective description)
    (Block.writeText_injective opening) (Block.writeText_injective contentName)

/-- On one line, between apostrophes if it is a reference, and else as it is. -/
def WrittenPlainly (width : Nat) (e : Text × Text) : Prop :=
  '\n' ∉ e.2 ∧
    if e.1 = "include" then
      Block.ScalarStyle.ofText e.2 = .singleQuoted ∧ Block.writeText width e.2 = '\'' :: e.2 ++ ['\'']
    else Block.ScalarStyle.ofText e.2 = .bare ∧ Block.writeText width e.2 = e.2

theorem writtenPlainly_of_bare {key t : Text} (other : key ≠ "include")
    (bare : Block.ScalarStyle.ofText t = .bare) (width : Nat) : WrittenPlainly width (key, t) := by
  refine ⟨Block.clean_of_style (by simp [bare]), ?_⟩
  rw [if_neg other, Block.writeText, bare]
  exact ⟨rfl, rfl⟩

theorem strings_toTree (r : Rule) (key : Text) : r.toTree.strings key =
    [("comment".toList, r.description), ("begin".toList, r.opening.source),
      ("contentName".toList, r.contentName), ("end".toList, r.closing.source)] ++
    r.captures.map (fun e => ("name".toList, e.2)) ++
    r.references.map (fun t => ("include".toList, t)) := by
  rw [toTree, Block.Tree.strings_dict]
  simp only [List.flatMap_cons, List.flatMap_nil, Block.Tree.strings_dict, Block.Tree.strings_list,
    List.flatMap_map, List.append_nil]
  rw [List.map_eq_flatMap, List.map_eq_flatMap]
  rfl

theorem writtenPlainly_of_built {r : Rule} (built : r.Built) (key : Text) (width : Nat) :
    ∀ e ∈ r.toTree.strings key, WrittenPlainly width e := by
  obtain ⟨suffix, features, q, multiline, ms, segment, clean, canonical, rfl⟩ := parts_of_built built
  intro e member
  rw [strings_toTree, List.mem_append, List.mem_append] at member
  rcases member with (fixed | capture) | reference
  · simp only [List.mem_cons, List.not_mem_nil, or_false] at fixed
    rcases fixed with rfl | rfl | rfl | rfl
    · exact writtenPlainly_of_bare (by decide) (describe_bare q multiline clean) width
    · exact writtenPlainly_of_bare (by decide) (opening_bare canonical q multiline) width
    · exact writtenPlainly_of_bare (by decide) (contentName_bare q segment) width
    · exact writtenPlainly_of_bare (by decide) (closing_bare q) width
  · obtain ⟨c, inside, rfl⟩ := List.mem_map.mp capture
    exact writtenPlainly_of_bare (by decide) (captures_bare ms segment c inside) width
  · obtain ⟨t, inside, rfl⟩ := List.mem_map.mp reference
    obtain ⟨style, written⟩ := references_quoted ms t inside
    have key : ("include".toList, t).1 = "include".toList := rfl
    refine ⟨Block.clean_of_style (by simp [style]), ?_⟩
    rw [if_pos key, Block.writeText, style]
    exact ⟨rfl, written⟩

end Rule

namespace RuleSet

theorem sound_document (s : RuleSet) (runtime : Block.Runtime) {limit : Int} (deep : 6 ≤ limit) :
    s.toDocument.firstFault? runtime limit 0 [] = none := by
  have rules : (Block.Tree.list (s.rules.map Rule.toTree)).height ≤ 4 :=
    (Block.Tree.height_list_le_iff _ 3).mpr (List.forall_mem_map.mpr fun r _ => r.height_toTree_le)
  have height : s.toDocument.height ≤ 6 := by
    rw [toDocument, Block.Tree.height_dict_le_iff _ 5, List.forall_mem_singleton]
    exact (Block.Tree.height_dict_le_iff _ 4).mpr (List.forall_mem_singleton.mpr rules)
  have writable : s.toDocument.Writable runtime := by
    apply Block.Tree.writable_dict
    rw [List.forall_mem_singleton]
    apply Block.Tree.writable_dict
    rw [List.forall_mem_singleton]
    exact .sequence "list" (List.forall_mem_map.mpr fun r _ => r.writable_toTree runtime)
  exact (Block.Tree.firstFault?_eq_none_iff ..).mpr ⟨writable, fun _ => by omega⟩

theorem strings_toDocument (s : RuleSet) :
    s.toDocument.strings [] = s.rules.flatMap fun r => r.toTree.strings "patterns" := by
  simp only [toDocument, Block.Tree.strings_dict, Block.Tree.strings_list, List.flatMap_cons,
    List.flatMap_nil, List.flatMap_map, List.append_nil]

theorem any_isContainer_toTree (rules : List Rule) :
    (rules.map Rule.toTree).any Block.Tree.isContainer = !rules.isEmpty := by
  cases rules with
  | nil => rfl
  | cons r rest => rfl

theorem rules_of_layout {s t : RuleSet} (built_s : ∀ r ∈ s.rules, r.Built)
    (built_t : ∀ r ∈ t.rules, r.Built) {width : Nat} (positive : 0 < width)
    (same : s.toDocument.layout width .block = t.toDocument.layout width .block) :
    s.rules = t.rules := by
  have inner := Block.Tree.entries_of_dict (List.all_eq_true.mp rfl) (List.all_eq_true.mp rfl)
    positive same
  have lists := Block.Tree.entries_of_dict (List.all_eq_true.mp rfl) (List.all_eq_true.mp rfl)
    positive (Prod.mk.inj (List.cons.inj inner).1).2
  have items := Block.Tree.items_of_layout positive ?_ (Prod.mk.inj (List.cons.inj lists).1).2
  · rw [List.map_map, List.map_map] at items
    exact Block.eq_of_maps (fun r in_s u in_t alike =>
      Rule.unique_of_layout (built_s r in_s) (built_t u in_t) positive alike) items
  · intro heads
    have lengths := congrArg List.length heads
    simp only [List.length_map] at lengths
    have empty : s.rules.isEmpty = t.rules.isEmpty := by
      rw [Bool.eq_iff_iff, List.isEmpty_iff_length_eq_zero, List.isEmpty_iff_length_eq_zero, lengths]
    rw [any_isContainer_toTree, any_isContainer_toTree, empty]

end RuleSet

end LiteralGrammar
