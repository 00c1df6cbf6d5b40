import LiteralGrammar.Text.Blank

/-!
The words of a text, and the text with single spaces between them.
-/
namespace LiteralGrammar.Text

theorem words_append_blank {c : Char} (blank : isBlank c = true) (s t : Text) :
    words (s ++ c :: t) = words s ++ words t := by
  unfold words
  rw [List.splitOnP_append_cons s t blank, List.filter_append]

theorem words_of_visible {w : Text} (nonempty : w ≠ [])
    (visible : w.all (fun c => !isBlank c) = true) : words w = [w] := by
  have each : ∀ c ∈ w, isBlank c = false := by simpa using visible
  unfold words
  rw [List.splitOnP_eq_singleton each]
  simp [nonempty]

theorem mem_splitOnP {p : Char → Bool} {t part : Text} (member : part ∈ t.splitOnP p) :
    ∀ c ∈ part, c ∈ t ∧ p c = false := by
  induction t generalizing part with
  | nil =>
    rw [List.splitOnP_nil, List.mem_singleton] at member
    simp [member]
  | cons d t ih =>
    have later : ∀ part ∈ t.splitOnP p, ∀ c ∈ part, c ∈ d :: t ∧ p c = false :=
      fun part inside c member => ⟨.tail _ (ih inside c member).1, (ih inside c member).2⟩
    rw [List.splitOnP_cons_eq_if_modifyHead] at member
    cases mark : p d with
    | true =>
      rw [if_pos mark] at member
      rcases List.mem_cons.mp member with rfl | inside
      · simp
      · exact later part inside
    | false =>
      rw [if_neg (by simp [mark])] at member
      cases split : t.splitOnP p with
      | nil => exact absurd split (List.splitOnP_ne_nil p t)
      | cons first rest =>
        rw [split] at member
        rcases List.mem_cons.mp member with rfl | inside
        · intro c member
          rcases List.mem_cons.mp member with rfl | inside
          · exact ⟨.head _, mark⟩
          · exact later first (by simp [split]) c inside
        · exact later part (by simp [split, inside])

theorem join_cons (gap part : Text) (rest : List Text) :
    join gap (part :: rest) = part ++ rest.flatMap (gap ++ ·) := by
  induction rest generalizing part with
  | nil => simp [join]
  | cons next rest ih =>
    have ih := ih next
    rw [join] at ih
    rw [join, List.intercalate_cons_cons, ih, List.flatMap_cons]
    simp only [List.append_assoc]

theorem join_starts (gap part : Text) (rest : List Text) :
    ∃ behind, join gap (part :: rest) = part ++ behind :=
  ⟨_, join_cons gap part rest⟩

theorem length_le_length_join {gap : Text} (nonempty : gap ≠ []) (part : Text) (rest : List Text) :
    rest.length ≤ (join gap (part :: rest)).length := by
  have positive := List.length_pos_iff.mpr nonempty
  rw [join_cons, List.length_append]
  induction rest with
  | nil => simp
  | cons next rest ih =>
    rw [List.flatMap_cons, List.length_append, List.length_append, List.length_cons]
    omega

theorem mem_join {gap : Text} {parts : List Text} {c : Char} (member : c ∈ join gap parts) :
    c ∈ gap ∨ ∃ part ∈ parts, c ∈ part := by
  cases parts with
  | nil => simp [join] at member
  | cons part rest =>
    rw [join_cons, List.mem_append, List.mem_flatMap] at member
    rcases member with inside | ⟨next, later, inside⟩
    · exact .inr ⟨part, .head _, inside⟩
    · exact (List.mem_append.mp inside).imp_right fun inside => ⟨next, .tail _ later, inside⟩

theorem infix_join {gap part : Text} {parts : List Text} (member : part ∈ parts) :
    part <:+: join gap parts := by
  cases parts with
  | nil => cases member
  | cons first rest =>
    rw [join_cons]
    rcases List.mem_cons.mp member with rfl | later
    · exact (List.prefix_append _ _).isInfix
    · have inside := List.infix_of_mem_flatten (List.mem_map_of_mem (f := (gap ++ ·)) later)
      exact (List.suffix_append gap part).isInfix.trans
        (inside.trans (List.suffix_append _ _).isInfix)

theorem clean_join {gap : Text} {c : Char} (between : c ∉ gap) (parts : List Text) :
    c ∉ join gap parts ↔ ∀ part ∈ parts, c ∉ part := by
  constructor
  · intro clean part member inside
    exact clean ((infix_join member).subset inside)
  · intro clean member
    rcases mem_join member with inside | ⟨part, held, inside⟩
    · exact between inside
    · exact clean part held inside

theorem join_ends (gap : Text) (front : List Text) (part : Text) :
    ∃ before, join gap (front ++ [part]) = before ++ part := by
  induction front with
  | nil => exact ⟨[], by simp [join]⟩
  | cons first front ih =>
    obtain ⟨before, same⟩ := ih
    cases front with
    | nil => exact ⟨first ++ gap, by simp [join, List.intercalate_cons_cons]⟩
    | cons next front =>
      refine ⟨first ++ gap ++ before, ?_⟩
      rw [join] at same
      rw [join, List.cons_append, List.cons_append, List.intercalate_cons_cons,
        ← List.cons_append, same]
      simp

theorem mem_collapseBlanks {t : Text} {c : Char} (member : c ∈ collapseBlanks t) :
    c = ' ' ∨ (c ∈ t ∧ isBlank c = false) := by
  rcases mem_join member with space | ⟨word, inside, member⟩
  · exact .inl (List.mem_singleton.mp space)
  · exact .inr (mem_splitOnP (List.mem_filter.mp inside).1 c member)

end LiteralGrammar.Text
