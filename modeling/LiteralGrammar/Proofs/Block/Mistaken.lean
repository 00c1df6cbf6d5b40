import LiteralGrammar.Proofs.Block.Refinement
import LiteralGrammar.Proofs.Block.ScalarReading

/-!
Strings against other values. Quotes, brackets and dashes tell most of them apart; what is left are
the words and numbers that a bare string may spell, and mappings, whose keys are never quoted.
-/
namespace LiteralGrammar.Block

/-- The values that are no strings and may yet be written as the string is: a scalar that it spells,
a mapping whose only entry stands on one line, or one whose first key the literal block of the string
begins with, colon and all. -/
inductive Mistaken (width : Nat) (s : Text) : Tree → Prop where
  | spelled {x : Scalar} (bare : ScalarStyle.ofText s = .bare) (same : x.written width = s) :
    Mistaken width s (.scalar x)
  | entry {typeName : Text} {key : Key} {value : Tree} (single : '\n' ∉ s)
    (beside : isNumeric key.name = false → value.isNested = false)
    (same : writeText width s = key.name ++ ": " ++ value.layout width .inline) :
    Mistaken width s (.mapping typeName [(key, value)])
  | block {typeName : Text} {key : Key} {value : Tree} {rest : List (Key × Tree)}
    (several : '\n' ∈ s) (starts : key.name ++ [':'] <+: writeText width s) :
    Mistaken width s (.mapping typeName ((key, value) :: rest))

theorem head_writeText_not_structural {width : Nat} {s : Text} {c : Char}
    (head : (writeText width s).head? = some c) : c ∉ ['[', '-', '\x7b'] := by
  intro structural
  rcases head_writeText width s with ⟨style, same⟩ | ⟨d, mark, head'⟩
  · obtain ⟨d, rest, whole, indicator, -, -⟩ := ScalarStyle.head_of_bare style
    rw [same, whole] at head
    cases head
    simp only [List.mem_cons, List.not_mem_nil, or_false] at structural
    rcases structural with rfl | rfl | rfl <;> exact indicator (by decide)
  · rw [head] at head'
    cases head'
    simp only [ScalarStyle.marks, List.mem_cons, List.not_mem_nil, or_false] at mark
    rcases mark with rfl | rfl | rfl <;> exact absurd structural (by decide)

namespace Tree

variable {width : Nat} {s : Text} {typeName : Text}

theorem head_layout_sequence (items : List Tree) (width : Nat) (typeName : Text) :
    ∃ c ∈ ['[', '-'], ((sequence typeName items).layout width .block).head? = some c := by
  cases items with
  | nil => exact ⟨'[', by simp, rfl⟩
  | cons t rest =>
    refine ⟨'-', by simp, ?_⟩
    cases nested : (t :: rest).any isContainer with
    | true =>
      rw [layout_hung nested, List.map_cons, hungItems, List.map_cons, Text.unlines]
      obtain ⟨behind, joined⟩ := Text.join_starts "\n"
        (dash ++ Text.hang dash.length (t.layout width .block)) _
      rw [joined]
      rfl
    | false =>
      rw [layout_flat (List.cons_ne_nil t rest) nested, List.map_cons, flatItems, List.map_cons,
        Text.unlines]
      obtain ⟨behind, joined⟩ := Text.join_starts "\n" (dash ++ t.layout width .inline) _
      rw [joined]
      rfl

theorem writeText_ne_sequence (items : List Tree) :
    writeText width s ≠ (sequence typeName items).layout width .block := by
  intro same
  obtain ⟨c, structural, head⟩ := head_layout_sequence items width typeName
  rw [← same] at head
  exact head_writeText_not_structural head (List.mem_append_left ['\x7b'] structural)

theorem layout_of_flat {t : Tree} (flat : t.isNested = false) :
    t.layout width .block = t.layout width .inline := by
  match t, flat with
  | scalar _, _ => rfl
  | foreign _, _ => rfl
  | mapping _ [], _ => rfl

theorem blockEntry_starts (width : Nat) (name value : Text) (nested : Bool) :
    ∃ behind, blockEntry width name value nested = name ++ ':' :: behind := by
  unfold blockEntry
  split
  · exact ⟨_, by rw [List.append_assoc]; rfl⟩
  · exact ⟨_, by rw [List.append_assoc]; rfl⟩

theorem blockEntry_of_clean {name value : Text} {nested : Bool}
    (clean : '\n' ∉ blockEntry width name value nested) :
    blockEntry width name value nested = name ++ ": " ++ value ∧
      (isNumeric name = false → nested = false) := by
  by_cases below : ¬isNumeric name ∧ (nested ∨ '\n' ∈ value)
  · rw [blockEntry, if_pos below] at clean
    exact absurd (by simp) clean
  · refine ⟨by rw [blockEntry, if_neg below], fun word => ?_⟩
    cases nested with
    | false => rfl
    | true => exact absurd ⟨by simp [word], .inl rfl⟩ below

theorem entry_of_clean {name : Text} {t : Tree}
    (clean : '\n' ∉ blockEntry width name
      (t.layout width (if isNumeric name then .inline else .block)) t.isNested) :
    blockEntry width name (t.layout width (if isNumeric name then .inline else .block)) t.isNested =
      name ++ ": " ++ t.layout width .inline ∧ (isNumeric name = false → t.isNested = false) := by
  obtain ⟨whole, flat⟩ := blockEntry_of_clean clean
  refine ⟨?_, flat⟩
  rw [whole]
  cases word : isNumeric name with
  | true => rfl
  | false => rw [if_neg Bool.false_ne_true, layout_of_flat (flat word)]

theorem layout_entry_beside {key : Key} {t : Tree} (beside : isNumeric key.name = false →
    t.isNested = false) (clean : '\n' ∉ t.layout width .inline) :
    (mapping typeName [(key, t)]).layout width .block =
      key.name ++ ": " ++ t.layout width .inline := by
  rw [layout_entries (List.cons_ne_nil _ _), blockEntries, blockEntries, Text.unlines, Text.join,
    List.intercalate_singleton]
  cases word : isNumeric key.name with
  | true =>
    rw [if_pos rfl, blockEntry, if_neg (by simp [word])]
  | false =>
    have flat := beside word
    rw [if_neg Bool.false_ne_true, layout_of_flat flat, blockEntry, if_neg (by simp [flat, clean])]

theorem mistaken_mapping {key : Key} {value : Tree} {rest : List (Key × Tree)}
    (same : writeText width s = (mapping typeName ((key, value) :: rest)).layout width .block) :
    Mistaken width s (mapping typeName ((key, value) :: rest)) := by
  rw [layout_entries (List.cons_ne_nil _ rest), blockEntries] at same
  by_cases several : '\n' ∈ s
  · obtain ⟨later, entry⟩ := blockEntry_starts width key.name
      (value.layout width (if isNumeric key.name then .inline else .block)) value.isNested
    rw [entry] at same
    obtain ⟨behind, joined⟩ := Text.join_starts "\n" (key.name ++ ':' :: later)
      (blockEntries width rest)
    rw [Text.unlines, joined] at same
    exact .block several ⟨later ++ behind, by rw [same]; simp⟩
  · have clean := clean_writeText (mt ScalarStyle.ofText_eq_literalBlock_iff.mp several) width
    rw [same] at clean
    cases rest with
    | cons e rest =>
      rw [blockEntries, Text.unlines_cons _ (List.cons_ne_nil _ _)] at clean
      exact absurd (List.mem_append_right _ List.mem_cons_self) clean
    | nil =>
      rw [blockEntries, Text.unlines, Text.join, List.intercalate_singleton] at same clean
      obtain ⟨whole, beside⟩ := entry_of_clean clean
      exact .entry several beside (same.trans whole)

theorem mistaken_of_same {v : Tree} (other : ∀ t, v ≠ text t) {r : Runtime} (written : v.Writable r)
    (same : writeText width s = v.layout width .block) : Mistaken width s v := by
  cases v with
  | foreign => cases written
  | sequence _ items => exact absurd same (writeText_ne_sequence items)
  | mapping typeName entries =>
    match entries with
    | (key, value) :: rest => exact mistaken_mapping same
    | [] =>
      have head : (writeText width s).head? = some '\x7b' := by rw [same]; rfl
      exact absurd (by simp) (head_writeText_not_structural head)
  | scalar x =>
    rw [layout] at same
    rcases head_writeText width s with ⟨style, bare⟩ | ⟨c, mark, head⟩
    · exact .spelled style (same.symm.trans bare)
    · have numeric := Scalar.numeric_written (fun t is_text => other t (congrArg scalar is_text)) width
      have inside := numeric c (same ▸ List.mem_of_mem_head? head)
      simp only [ScalarStyle.marks, List.mem_cons, List.not_mem_nil, or_false] at mark
      rcases mark with rfl | rfl | rfl <;> exact absurd inside (by decide)

theorem same_of_mistaken {v : Tree} (single : '\n' ∉ s) (mistaken : Mistaken width s v) :
    v.layout width .block = writeText width s := by
  cases mistaken with
  | spelled bare same => rw [layout, same, writeText, bare]
  | entry _ beside same =>
    have clean := clean_writeText (mt ScalarStyle.ofText_eq_literalBlock_iff.mp single) width
    rw [same] at clean ⊢
    exact layout_entry_beside beside fun inside => clean (List.mem_append_right _ inside)
  | block several => exact absurd several single

end Tree

namespace Writer

/-- A string is written unlike any other value that it is not mistaken for: unlike every sequence and
empty mapping, unlike every scalar unless it is bare and spells it, and unlike every other mapping
unless it is written with the first key, which is never quoted, in front. A string of one line is
written as the values are that it is mistaken for. -/
theorem string_written_unlike (w : Writer) (s : Text) {v : Tree} (other : ∀ t, v ≠ Tree.text t) :
    (¬Mistaken w.indentWidth s v → w.serializeTree (Tree.text s) ≠ w.serializeTree v) ∧
    ('\n' ∉ s → (w.serializeTree (Tree.text s) = w.serializeTree v ↔
      v.Writable w.runtime ∧ v.height ≤ w.room ∧ Mistaken w.indentWidth s v)) := by
  have string : w.serializeTree (Tree.text s) = .ok (writeText w.indentWidth s) :=
    w.serializeTree_written trivial
  have mistaken : w.serializeTree (Tree.text s) = w.serializeTree v →
      v.Writable w.runtime ∧ v.height ≤ w.room ∧ Mistaken w.indentWidth s v := by
    intro same
    rw [string, eq_comm, serializeTree_eq_ok_iff_fits] at same
    obtain ⟨writable, fits, written⟩ := same
    exact ⟨writable, fits, Tree.mistaken_of_same other writable written.symm⟩
  refine ⟨fun clear same => clear (mistaken same).2.2, fun single => ⟨mistaken, ?_⟩⟩
  intro ⟨writable, fits, confused⟩
  rw [string, eq_comm, serializeTree_eq_ok_iff_fits]
  exact ⟨writable, fits, Tree.same_of_mistaken single confused⟩

theorem string_written_unlike_minus :
    standard.serializeTree (Tree.text "-5") ≠ standard.serializeTree (.scalar (.integer (-5))) ∧
    standard.serializeTree (Tree.text "a\nb") ≠
      standard.serializeTree (.dict [("|\nzzz", .scalar (.integer 1))]) := by
  constructor
  · have clear : ¬Mistaken standard.indentWidth "-5" (.scalar (.integer (-5))) := by
      intro mistaken
      cases mistaken with
      | spelled bare => exact absurd bare (by decide)
    exact (string_written_unlike standard "-5" fun t same => by cases same).1 clear
  · have clear : ¬Mistaken standard.indentWidth "a\nb"
        (.dict [("|\nzzz", .scalar (.integer 1))]) := by
      intro mistaken
      cases mistaken with
      | entry single => exact absurd single (by decide)
      | block _ starts => exact absurd starts (by decide)
    exact (string_written_unlike standard "a\nb" fun t same => by cases same).1 clear

/-- Words are not quoted where a string spells them, nor is a string that is written as an entry, or,
over several lines, as a mapping whose first key starts with the mark of a literal block. -/
theorem string_spells_null :
    (standard.serializeTree (Tree.text "null") = .ok "null" ∧
      standard.serializeTree (.scalar .null) = .ok "null") ∧
    (standard.serializeTree (Tree.text "123") = .ok "123" ∧
      standard.serializeTree (.scalar (.integer 123)) = .ok "123") ∧
    (standard.serializeTree (Tree.text "hello: world") = .ok "hello: world" ∧
      standard.serializeTree (.dict [("hello", .text "world")]) = .ok "hello: world") ∧
    (standard.serializeTree (Tree.text "a: b\nc: d") = .ok "|\n  a: b\n  c: d" ∧
      standard.serializeTree (.dict [("|\n  a", .text "b"), ("  c", .text "d")]) =
        .ok "|\n  a: b\n  c: d") :=
  ⟨⟨rfl, rfl⟩, ⟨rfl, rfl⟩, ⟨rfl, rfl⟩, ⟨rfl, rfl⟩⟩

end Writer

end LiteralGrammar.Block
