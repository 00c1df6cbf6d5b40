import LiteralGrammar.Proofs.Block.Decoding

/-!
Values on one line. Written inline, a value has a line feed exactly where one of its strings or keys
has one, since a literal block stays a literal block between brackets. That is how the value of a
numeric key may leave the line of its key.
-/
namespace LiteralGrammar.Block

def Scalar.OneLine : Scalar → Prop
  | text t => '\n' ∉ t
  | _ => True

theorem Scalar.clean_written_iff (s : Scalar) (width : Nat) : '\n' ∉ s.written width ↔ s.OneLine := by
  cases s with
  | text t =>
    rw [written, OneLine, several_writeText_iff, ScalarStyle.ofText_eq_literalBlock_iff]
  | _ => exact iff_of_true (clean_written (by simp) width) trivial

theorem clean_of_isNumeric {name : Text} (numeric : isNumeric name = true) : '\n' ∉ name := by
  simp only [isNumeric, Bool.and_eq_true, List.all_eq_true] at numeric
  exact fun member => absurd (numeric.2 _ member) (by decide)

theorem clean_comma : '\n' ∉ ", ".toList := by decide

theorem clean_inlineSequence (items : List Text) :
    '\n' ∉ inlineSequence items ↔ ∀ item ∈ items, '\n' ∉ item := by
  rw [inlineSequence, List.cons_append, List.mem_cons, List.mem_append, not_or, not_or,
    Text.clean_join clean_comma]
  simp

theorem clean_inlineMapping (entries : List (Text × Text)) :
    '\n' ∉ inlineMapping entries ↔ ∀ e ∈ entries, '\n' ∉ e.1 ∧ '\n' ∉ e.2 := by
  rw [inlineMapping, List.cons_append, List.mem_cons, List.mem_append, not_or, not_or,
    Text.clean_join clean_comma, List.forall_mem_map]
  simp

namespace Tree

/-- No string in the tree has several lines, and no key. -/
inductive OneLine : Tree → Prop where
  | scalar {s : Scalar} (single : s.OneLine) : OneLine (scalar s)
  | foreign (typeName : Text) : OneLine (foreign typeName)
  | sequence (typeName : Text) {items : List Tree} (each : ∀ t ∈ items, OneLine t) :
    OneLine (sequence typeName items)
  | mapping (typeName : Text) {entries : List (Key × Tree)}
    (keys : ∀ e ∈ entries, '\n' ∉ e.1.name) (each : ∀ e ∈ entries, OneLine e.2) :
    OneLine (mapping typeName entries)

theorem clean_inline_iff (width : Nat) (t : Tree) : '\n' ∉ t.layout width .inline ↔ t.OneLine := by
  induction t with
  | scalar s =>
    rw [layout, s.clean_written_iff]
    refine ⟨.scalar, fun single => ?_⟩
    cases single with
    | scalar single => exact single
  | foreign typeName => exact iff_of_true (by simp [layout]) (.foreign typeName)
  | sequence typeName items ih =>
    rw [layout, itemLayouts_eq_map, clean_inlineSequence, List.forall_mem_map]
    constructor
    · intro each
      exact .sequence typeName fun t member => (ih t member).mp (each t member)
    · intro single
      cases single with
      | sequence _ each => exact fun t member => (ih t member).mpr (each t member)
  | mapping typeName entries ih =>
    rw [layout, inlineEntries_eq_map, clean_inlineMapping, List.forall_mem_map]
    constructor
    · intro each
      exact .mapping typeName (fun e member => (each e member).1) fun e member =>
        (ih e member).mp (each e member).2
    · intro single
      cases single with
      | mapping _ keys each =>
        exact fun e member => ⟨keys e member, (ih e member).mpr (each e member)⟩

def entryText (width : Nat) (e : Key × Tree) : Text :=
  blockEntry width e.1.name
    (e.2.layout width (if isNumeric e.1.name then .inline else .block)) e.2.isNested

theorem entryText_of_numeric {e : Key × Tree} (numeric : isNumeric e.1.name = true) (width : Nat) :
    entryText width e = e.1.name ++ ": " ++ e.2.layout width .inline := by
  rw [entryText, if_pos numeric, blockEntry, if_neg (by simp [numeric])]

theorem clean_entryText_iff {e : Key × Tree} (numeric : isNumeric e.1.name = true) (width : Nat) :
    '\n' ∉ entryText width e ↔ e.2.OneLine := by
  rw [entryText_of_numeric numeric, ← clean_inline_iff width]
  simp [clean_of_isNumeric numeric]

end Tree

namespace Writer

/-- Every mapping is written entry below entry. A numeric key stands with a colon and a space in front
of its value, and the value is on the same line exactly if no string and no key in it has a line
feed. -/
theorem numeric_entries_on_one_line (w : Writer) (typeName : Text) {entries : List (Key × Tree)}
    (nonempty : entries ≠ [])
    (writable : (Tree.mapping typeName entries).Writable w.runtime)
    (fits : (Tree.mapping typeName entries).height ≤ w.room) :
    w.serializeTree (.mapping typeName entries) =
        .ok (Text.unlines (entries.map (Tree.entryText w.indentWidth))) ∧
      ∀ e ∈ entries, isNumeric e.1.name = true →
        e.1.name ++ ": ".toList <+: Tree.entryText w.indentWidth e ∧
          ('\n' ∉ Tree.entryText w.indentWidth e ↔ e.2.OneLine) := by
  constructor
  · rw [serializeTree_eq_ok_iff_fits, Tree.layout_entries nonempty, Tree.blockEntries_eq_map]
    exact ⟨writable, fits, rfl⟩
  · intro e _ numeric
    refine ⟨?_, Tree.clean_entryText_iff numeric w.indentWidth⟩
    rw [Tree.entryText_of_numeric numeric]
    exact List.prefix_append _ _

theorem numeric_entries_on_one_line_two :
    let nested : Tree := .dict [("k", .list [.text "x", .scalar .null])]
    let entries : List (Key × Tree) := [(.integer 1, nested), (.text "2", .text "a\nb")]
    let text : Text := "1: \x7bk: [x, null]\x7d\n2: |\n  a\n  b"
    entries ≠ [] ∧ (Tree.mapping "dict" entries).Writable standard.runtime ∧
      (Tree.mapping "dict" entries).height ≤ standard.room ∧
      standard.serializeTree (.mapping "dict" entries) = .ok text ∧
      isNumeric "1" = true ∧ '\n' ∉ Tree.entryText standard.indentWidth (.integer 1, nested) := by
  intro nested entries text
  have nonempty : entries ≠ [] := List.cons_ne_nil _ _
  have text_ok : standard.serializeTree (.mapping "dict" entries) = .ok text := rfl
  obtain ⟨writable, fits, -⟩ := (serializeTree_eq_ok_iff_fits _ _ _).mp text_ok
  obtain ⟨-, each⟩ := numeric_entries_on_one_line standard "dict" nonempty writable fits
  have single : nested.OneLine := by
    have items : ∀ t ∈ [Tree.text "x", .scalar .null], t.OneLine := by
      intro t member
      simp only [List.mem_cons, List.not_mem_nil, or_false] at member
      rcases member with rfl | rfl
      · exact .scalar (by decide : '\n' ∉ "x".toList)
      · exact .scalar trivial
    exact .mapping "dict" (List.forall_mem_singleton.mpr (by decide))
      (List.forall_mem_singleton.mpr (.sequence "list" items))
  exact ⟨nonempty, writable, fits, text_ok, rfl, (each _ (.head _) rfl).2.mpr single⟩

/-- A string of two lines stays a literal block below a numeric key. -/
theorem numeric_entry_on_three_lines :
    isNumeric (Key.integer 1).name = true ∧
      standard.serializeTree (.mapping "dict" [(.integer 1, .text "a\nb")]) =
        .ok "1: |\n  a\n  b" ∧
      '\n' ∈ "1: |\n  a\n  b".toList :=
  ⟨rfl, rfl, by decide⟩

end Writer

end LiteralGrammar.Block
