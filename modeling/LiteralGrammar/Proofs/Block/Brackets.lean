import LiteralGrammar.Proofs.Block.Decoding
import LiteralGrammar.Proofs.Text.Runs

/-!
Strings between brackets. A quoted string ends with its closing quote, whatever is in it. A bare one
and a literal block end with nothing of their own, so a comma and a space in them look like the end
of the item. In no other way are two lists of strings written alike.
-/
namespace LiteralGrammar.Block

open ScalarStyle (ofText ofMark)

/-- Where one string goes on past the other: it is written as the other is, and then a comma, a space
and more, with no quotes around it to hold them. -/
structure RunsOn (width : Nat) (s t : Text) : Prop where
  style : ofText s = ofText t
  unquoted : ofText t = .bare ∨ ofText t = .literalBlock
  comma : ", ".toList <:+: t
  longer : writeText width s ++ ", ".toList <+: writeText width t

def Separated (rest : Text) : Prop := rest = [] ∨ ∃ more, rest = ',' :: ' ' :: more

theorem encloses_doubled :
    Text.Encloses '\'' fun c : Char => if c = '\'' then ['\'', '\''] else [c] where
  cut := by
    intro c d s t same
    by_cases hc : c = '\''
    · by_cases hd : d = '\''
      · rw [if_pos hc, if_pos hd] at same
        exact ⟨hc.trans hd.symm, List.append_cancel_left same⟩
      · rw [if_pos hc, if_neg hd] at same
        exact absurd (List.cons.inj same).1.symm hd
    · by_cases hd : d = '\''
      · rw [if_neg hc, if_pos hd] at same
        exact absurd (List.cons.inj same).1 hc
      · rw [if_neg hc, if_neg hd] at same
        exact List.cons.inj same
  twice := by
    intro c s t same
    by_cases hc : c = '\''
    · rw [if_pos hc] at same
      simp [← (List.cons.inj same).2]
    · rw [if_neg hc] at same
      exact absurd (List.cons.inj same).1 hc

theorem encloses_escaped : Text.Encloses '"' Json.escapeChar where
  cut := Json.escapeChar_cut
  twice := fun same => (Json.escapeChar_append_ne_quote _ _ _ same).elim

variable {width : Nat} {s t r u : Text}

theorem head_ne_of_separated (separated : Separated r) {c : Char} (other : c ≠ ',') :
    r.head? ≠ some c := by
  rcases separated with rfl | ⟨more, rfl⟩
  · simp
  · simpa using Ne.symm other

theorem empty_or_comma {gap : Text} (separated : Separated (gap ++ u)) (hu : Separated u) :
    gap = [] ∨ ", ".toList <+: gap := by
  cases gap with
  | nil => exact .inl rfl
  | cons c gap =>
    refine .inr ?_
    rcases separated with empty | ⟨more, whole⟩
    · cases empty
    obtain ⟨rfl, space⟩ := List.cons.inj whole
    cases gap with
    | nil =>
      rcases hu with rfl | ⟨_, rfl⟩
      · cases space
      · exact absurd (List.cons.inj space).1 (by decide)
    | cons d gap =>
      obtain ⟨rfl, -⟩ := List.cons.inj space
      exact ⟨gap, rfl⟩

/-- Either two texts end at the same place, or one goes on where the other is separated from the
next. -/
theorem equal_or_longer {a b : Text} (hr : Separated r) (hu : Separated u) (same : a ++ r = b ++ u) :
    (a = b ∧ r = u) ∨ a ++ ", ".toList <+: b ∨ b ++ ", ".toList <+: a := by
  rcases List.append_eq_append_iff.mp same with ⟨gap, rfl, rfl⟩ | ⟨gap, rfl, rfl⟩
  · rcases empty_or_comma hr hu with rfl | comma
    · exact .inl ⟨(List.append_nil a).symm, rfl⟩
    · exact .inr (.inl (List.prefix_append_right_inj a |>.mpr comma))
  · rcases empty_or_comma hu hr with rfl | comma
    · exact .inl ⟨List.append_nil b, rfl⟩
    · exact .inr (.inr (List.prefix_append_right_inj b |>.mpr comma))

theorem writeText_bare (style : ofText t = .bare) (width : Nat) : writeText width t = t := by
  rw [writeText, style]

theorem comma_of_longer (style : ofText s = ofText t)
    (unquoted : ofText t = .bare ∨ ofText t = .literalBlock)
    (longer : writeText width s ++ ", ".toList <+: writeText width t) : ", ".toList <:+: t := by
  obtain ⟨more, whole⟩ := longer
  rcases unquoted with bare | literal
  · rw [writeText_bare bare, writeText_bare (style.trans bare)] at whole
    exact ⟨s, more, whole⟩
  · rw [writeText_literal literal, writeText_literal (style.trans literal)] at whole
    have inside : ", ".toList <:+: Text.indent width t :=
      ⟨Text.indent width s, more, (List.cons.inj (List.cons.inj whole).2).2⟩
    exact Text.infix_of_indent (by decide) (by decide) inside

theorem runsOn_or_same (style : ofText s = ofText t)
    (unquoted : ofText t = .bare ∨ ofText t = .literalBlock) (hr : Separated r) (hu : Separated u)
    (same : writeText width s ++ r = writeText width t ++ u) :
    (s = t ∧ r = u) ∨ RunsOn width s t ∨ RunsOn width t s := by
  rcases equal_or_longer hr hu same with ⟨written, rest⟩ | longer | longer
  · exact .inl ⟨writeText_injective written, rest⟩
  · exact .inr (.inl ⟨style, unquoted, comma_of_longer style unquoted longer, longer⟩)
  · have unquoted := style ▸ unquoted
    exact .inr (.inr ⟨style.symm, unquoted, comma_of_longer style.symm unquoted longer, longer⟩)

theorem writeText_ne_nil (width : Nat) (t : Text) : writeText width t ≠ [] := by
  intro empty
  rcases head_writeText width t with ⟨style, same⟩ | ⟨c, -, head⟩
  · obtain ⟨c, rest, rfl, -⟩ := ScalarStyle.unmarked_of_bare style
    cases same.symm.trans empty
  · simp [empty] at head

theorem style_of_same (same : writeText width s ++ r = writeText width t ++ u) :
    ofText s = ofText t := by
  have head : ∀ t r, ofMark (writeText width t ++ r).head? = ofText t := by
    intro t r
    obtain ⟨c, rest, written⟩ := List.exists_cons_of_ne_nil (writeText_ne_nil width t)
    rw [← ofMark_head_writeText width t, written]
    rfl
  rw [← head s r, same, head]

theorem item_unique (hr : Separated r) (hu : Separated u)
    (same : writeText width s ++ r = writeText width t ++ u) :
    (s = t ∧ r = u) ∨ RunsOn width s t ∨ RunsOn width t s := by
  have style := style_of_same same
  cases written : ofText t with
  | bare => exact runsOn_or_same style (.inl written) hr hu same
  | literalBlock => exact runsOn_or_same style (.inr written) hr hu same
  -- Quotes inside are doubled or escaped, so both texts end at the same closing quote.
  | singleQuoted =>
    simp only [writeText, style, written, singleQuoted, List.cons_append, List.append_assoc,
      List.cons.injEq, true_and] at same
    exact .inl (encloses_doubled.unique (head_ne_of_separated hr (by decide))
      (head_ne_of_separated hu (by decide)) same)
  | doubleQuoted =>
    simp only [writeText, style, written, Json.quoted, List.cons_append, List.append_assoc,
      List.cons.injEq, true_and] at same
    exact .inl (encloses_escaped.unique (head_ne_of_separated hr (by decide))
      (head_ne_of_separated hu (by decide)) same)

def behind (width : Nat) (ss : List Text) : Text :=
  ss.flatMap fun s => ", ".toList ++ writeText width s

theorem separated_behind (width : Nat) (ss : List Text) : Separated (behind width ss) := by
  cases ss with
  | nil => exact .inl rfl
  | cons s ss => exact .inr ⟨writeText width s ++ behind width ss, by simp [behind]⟩

theorem behind_unique {xs ys : List Text} (same : behind width xs = behind width ys) :
    xs = ys ∨ ∃ x ∈ xs, ∃ y ∈ ys, RunsOn width x y ∨ RunsOn width y x := by
  induction xs generalizing ys with
  | nil =>
    cases ys with
    | nil => exact .inl rfl
    | cons y ys => simp [behind] at same
  | cons x xs ih =>
    cases ys with
    | nil => simp [behind] at same
    | cons y ys =>
      have items : writeText width x ++ behind width xs = writeText width y ++ behind width ys := by
        simpa [behind] using same
      rcases item_unique (separated_behind width xs) (separated_behind width ys) items with
        ⟨rfl, rest⟩ | longer
      · rcases ih rest with rfl | ⟨a, in_x, b, in_y, longer⟩
        · exact .inl rfl
        · exact .inr ⟨a, .tail _ in_x, b, .tail _ in_y, longer⟩
      · exact .inr ⟨x, .head _, y, .head _, longer⟩

theorem behind_eq_join {ss : List Text} (nonempty : ss ≠ []) (width : Nat) :
    behind width ss = ", ".toList ++ Text.join ", " (ss.map (writeText width)) := by
  obtain ⟨s, ss, rfl⟩ := List.exists_cons_of_ne_nil nonempty
  rw [List.map_cons, Text.join_cons, List.flatMap_map, behind, List.flatMap_cons, List.append_assoc]

theorem join_ne_nil {ss : List Text} (nonempty : ss ≠ []) (width : Nat) :
    Text.join ", " (ss.map (writeText width)) ≠ [] := by
  obtain ⟨s, ss, rfl⟩ := List.exists_cons_of_ne_nil nonempty
  rw [List.map_cons, Text.join_cons]
  exact List.append_ne_nil_of_left_ne_nil (writeText_ne_nil width s) _

theorem brackets_unique {xs ys : List Text}
    (same : inlineSequence (xs.map (writeText width)) = inlineSequence (ys.map (writeText width))) :
    xs = ys ∨ ∃ x ∈ xs, ∃ y ∈ ys, RunsOn width x y ∨ RunsOn width y x := by
  have between := List.append_cancel_right (List.cons.inj same).2
  by_cases hx : xs = []
  · by_cases hy : ys = []
    · exact .inl (hx.trans hy.symm)
    · rw [hx] at between
      exact absurd between.symm (join_ne_nil hy width)
  · by_cases hy : ys = []
    · rw [hy] at between
      exact absurd between (join_ne_nil hx width)
    · refine behind_unique ?_
      rw [behind_eq_join hx, behind_eq_join hy, between]

theorem bare_append {s t : Text} (hs : ofText s = .bare) (ht : ofText t = .bare) :
    ofText (s ++ ", ".toList ++ t) = .bare := by
  obtain ⟨clean_s, first, head_s, last_s, -, quotes_s, escapes_s⟩ :=
    ScalarStyle.ofText_eq_bare_iff.mp hs
  obtain ⟨clean_t, first_t, -, last, last_t, quotes_t, escapes_t⟩ :=
    ScalarStyle.ofText_eq_bare_iff.mp ht
  refine ScalarStyle.ofText_eq_bare_iff.mpr
    ⟨by simp [clean_s, clean_t], first, ?_, last, ?_, ?_, ?_⟩
  · simp [Option.mem_def.mp head_s]
  · rw [List.getLast?_append, Option.mem_def.mp last_t]
    rfl
  · simp only [ScalarStyle.needsQuotes, Bool.or_eq_false_iff] at quotes_s quotes_t ⊢
    exact ⟨⟨quotes_s.1.1, quotes_t.1.2⟩, quotes_t.2⟩
  · have between : ", ".toList.any ScalarStyle.controls.contains = false := by decide
    simp only [ScalarStyle.needsEscapes, Bool.or_eq_false_iff] at escapes_s escapes_t ⊢
    refine ⟨by simpa [Option.mem_def.mp head_s] using escapes_s.1, ?_⟩
    rw [List.any_append, List.any_append, escapes_s.2, between, escapes_t.2]
    rfl

def listUnder (key : Key) (ss : List Text) : Tree := .mapping "dict" [(key, .list (ss.map .text))]

namespace Tree

theorem itemLayouts_text (width : Nat) (mode : Layout) (ss : List Text) :
    itemLayouts width mode (ss.map text) = ss.map (writeText width) := by
  rw [itemLayouts_eq_map, List.map_map]
  rfl

theorem itemsFault?_text (r : Runtime) (limit depth : Int) (place : Place) (i : Nat) (ss : List Text) :
    itemsFault? r limit depth place i (ss.map text) = none := by
  induction ss generalizing i with
  | nil => rfl
  | cons s ss ih =>
    rw [List.map_cons, itemsFault?, ih, Option.or_none]
    rfl

theorem layout_listUnder {key : Key} (numeric : isNumeric key.name = true) (width : Nat)
    (ss : List Text) : (listUnder key ss).layout width .block =
      key.name ++ ": " ++ inlineSequence (ss.map (writeText width)) := by
  rw [listUnder, layout_entries (List.cons_ne_nil _ _), blockEntries, if_pos numeric, list, layout,
    itemLayouts_text, blockEntries, Text.unlines, Text.join, List.intercalate_singleton, blockEntry,
    if_neg (by simp [numeric])]

theorem firstFault?_listUnder (r : Runtime) (key : Key) (limit depth : Int) (place : Place)
    (xs ys : List Text) : (listUnder key xs).firstFault? r limit depth place =
      (listUnder key ys).firstFault? r limit depth place := by
  simp only [listUnder, list, firstFault?, entriesFault?, itemsFault?_text]

end Tree

namespace Writer

/-- Lists of strings under one numeric key are written alike only if a string of one runs on past a
string of the other. Bare strings do: a comma and a space between two of them may be part of one. -/
theorem bracketed_strings_apart (w : Writer) {key : Key} (numeric : isNumeric key.name = true) :
    (∀ (xs ys : List Text) (text : Text), w.serializeTree (listUnder key xs) = .ok text →
      w.serializeTree (listUnder key ys) = .ok text →
      xs = ys ∨ ∃ x ∈ xs, ∃ y ∈ ys, RunsOn w.indentWidth x y ∨ RunsOn w.indentWidth y x) ∧
    (∀ x y : Text, ofText x = .bare → ofText y = .bare →
      w.serializeTree (listUnder key [x ++ ", ".toList ++ y]) =
        w.serializeTree (listUnder key [x, y])) := by
  constructor
  · intro xs ys text hx hy
    have written := ((w.serializeTree_eq_ok_iff _ _).mp hx).2
    rw [← ((w.serializeTree_eq_ok_iff _ _).mp hy).2, Tree.layout_listUnder numeric,
      Tree.layout_listUnder numeric] at written
    exact brackets_unique (List.append_cancel_left written)
  · intro x y hx hy
    have joined : inlineSequence ([x ++ ", ".toList ++ y].map (writeText w.indentWidth)) =
        inlineSequence ([x, y].map (writeText w.indentWidth)) := by
      simp only [List.map_cons, List.map_nil, writeText_bare hx, writeText_bare hy,
        writeText_bare (bare_append hx hy)]
      simp [inlineSequence, Text.join]
    rw [serializeTree_eq, serializeTree_eq, Tree.layout_listUnder numeric,
      Tree.layout_listUnder numeric, joined, Tree.firstFault?_listUnder _ key _ _ _ _ [x, y]]

theorem bracketed_strings_apart_three :
    let key := Key.text "007"
    let xs := ["a, b".toList, "it's".toList]
    let ys := ["a".toList, "b".toList, "it's".toList]
    let text : Text := "007: [a, b, it's]"
    isNumeric key.name = true ∧ standard.serializeTree (listUnder key xs) = .ok text ∧
      standard.serializeTree (listUnder key ys) = .ok text ∧
      (xs = ys ∨ ∃ x ∈ xs, ∃ y ∈ ys,
        RunsOn standard.indentWidth x y ∨ RunsOn standard.indentWidth y x) ∧
      ofText "b" = .bare ∧ ofText "it's" = .bare ∧
      standard.serializeTree (listUnder key ["b, it's".toList]) =
        standard.serializeTree (listUnder key ["b".toList, "it's".toList]) := by
  intro key xs ys text
  have numeric : isNumeric key.name = true := rfl
  have hx : standard.serializeTree (listUnder key xs) = .ok text := rfl
  have hy : standard.serializeTree (listUnder key ys) = .ok text := rfl
  obtain ⟨apart, together⟩ := bracketed_strings_apart standard numeric
  exact ⟨numeric, hx, hy, apart xs ys text hx hy, rfl, rfl, together "b" "it's" rfl rfl⟩

/-- A comma in a bare string, and one in the last line of a literal block. -/
theorem comma_parts_items :
    isNumeric (Key.integer 1).name = true ∧
    (standard.serializeTree (listUnder (.integer 1) ["a, b".toList]) = .ok "1: [a, b]" ∧
      standard.serializeTree (listUnder (.integer 1) ["a".toList, "b".toList]) = .ok "1: [a, b]" ∧
      ["a, b".toList] ≠ ["a".toList, "b".toList]) ∧
    (standard.serializeTree (listUnder (.integer 1) ["\na, b".toList]) = .ok "1: [|\n\n  a, b]" ∧
      standard.serializeTree (listUnder (.integer 1) ["\na".toList, "b".toList]) =
        .ok "1: [|\n\n  a, b]") :=
  ⟨rfl, ⟨rfl, rfl, by decide⟩, ⟨rfl, rfl⟩⟩

end Writer

end LiteralGrammar.Block
