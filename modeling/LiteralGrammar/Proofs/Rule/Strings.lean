import LiteralGrammar.Proofs.Block.ScalarReading
import LiteralGrammar.Proofs.Combination.Sublists
import LiteralGrammar.Proofs.Text.Ascii
import LiteralGrammar.Proofs.Text.Words
import LiteralGrammar.Rule

/-!
How the strings of a rule are written: bare, but for the references, which are quoted. A locale has
no say in that, as long as its lists hold no backspace.
-/
namespace LiteralGrammar

namespace Block.ScalarStyle

theorem bare_of_ends {c : Char} {rest : Text} (opens : c ∉ indicators) (quote : c ≠ '"')
    (first : Text.isBlank c = false)
    (last : ∀ d ∈ (c :: rest).getLast?, Text.isBlank d = false ∧ d ≠ ':')
    (chars : ∀ d ∈ c :: rest, d ∉ controls) : ofText (c :: rest) = .bare := by
  refine ofText_eq_bare_iff.mpr ⟨fun several => chars _ several (by decide), c, rfl, ?_⟩
  cases found : (c :: rest).getLast? with
  | none => simp at found
  | some d =>
    refine ⟨d, rfl, ?_, ?_⟩
    · obtain ⟨visible, colon⟩ := last d found
      simp [needsQuotes, first, opens, visible, colon]
    · have absent : (c :: rest).any controls.contains = false := by
        apply List.any_eq_false.mpr
        intro d member contained
        exact chars d member (List.contains_iff_mem.mp contained)
      simp only [needsEscapes, absent, Bool.or_false, List.head?_cons, Option.some.injEq]
      exact decide_eq_false quote

def isScopeChar (c : Char) : Bool := c.isAlphanum || c = '.' || c = '-' || c = '_'

theorem visible_of_isScopeChar {c : Char} (plain : isScopeChar c = true) :
    Text.isBlank c = false := by
  simp only [isScopeChar, Bool.or_eq_true, decide_eq_true_eq] at plain
  rcases plain with ((either | rfl) | rfl) | rfl
  · have codes := Text.toNat_of_isAlphanum either
    exact Text.not_isBlank_of_visible (by omega) (by omega)
  all_goals decide

theorem outside_of_isScopeChar {c : Char} (plain : isScopeChar c = true) :
    c ≠ ':' ∧ c ∉ controls := by
  have others : (':' :: controls).all (fun c => !isScopeChar c) = true := by decide
  have absent : c ∉ ':' :: controls := by
    intro member
    have other := List.all_eq_true.mp others c member
    simp [plain] at other
  exact not_or.mp (mt List.mem_cons.mpr absent)

theorem bare_of_scope {c : Char} {rest : Text} (letter : c.isAlpha = true)
    (plain : ∀ d ∈ rest, isScopeChar d = true) : ofText (c :: rest) = .bare := by
  have first : isScopeChar c = true := by simp [isScopeChar, Char.isAlphanum, letter]
  have each : ∀ d ∈ c :: rest, isScopeChar d = true := List.forall_mem_cons.mpr ⟨first, plain⟩
  have others : ('"' :: indicators).all (fun d => !d.isAlpha) = true := by decide
  have opens : c ∉ '"' :: indicators := by
    intro member
    have other := List.all_eq_true.mp others c member
    simp [letter] at other
  obtain ⟨quote, opens⟩ := not_or.mp (mt List.mem_cons.mpr opens)
  refine bare_of_ends opens quote (visible_of_isScopeChar first) ?_ ?_
  · intro d found
    have plain := each d (List.mem_of_getLast? found)
    exact ⟨visible_of_isScopeChar plain, (outside_of_isScopeChar plain).1⟩
  · intro d member
    exact (outside_of_isScopeChar (each d member)).2

end Block.ScalarStyle

theorem Quote.mem_all (q : Quote) : q ∈ Quote.all := by
  cases q <;> decide

open Block (ScalarStyle)
open Block.ScalarStyle (isScopeChar)

namespace Rule

theorem isScopeChar_of_isScopeSegment {suffix : Text} (segment : isScopeSegment suffix = true) :
    ∀ c ∈ suffix, isScopeChar c = true := by
  cases suffix with
  | nil => cases segment
  | cons d rest =>
    simp only [isScopeSegment, Bool.and_eq_true, List.all_eq_true, Bool.or_eq_true,
      decide_eq_true_eq] at segment
    refine List.forall_mem_cons.mpr ⟨by simp [isScopeChar, segment.1], fun c member => ?_⟩
    rcases segment.2 c member with (either | rfl) | rfl
    · simp [isScopeChar, either]
    · rfl
    · rfl

def isScopeFront : Text → Bool
  | [] => false
  | c :: rest => c.isAlpha && rest.all isScopeChar

theorem bare_of_suffix {front suffix : Text} (plain : isScopeFront front = true)
    (segment : isScopeSegment suffix = true) : ScalarStyle.ofText (front ++ suffix) = .bare := by
  cases front with
  | nil => cases plain
  | cons c rest =>
    simp only [isScopeFront, Bool.and_eq_true, List.all_eq_true] at plain
    apply ScalarStyle.bare_of_scope plain.1
    intro d member
    rcases List.mem_append.mp member with inside | inside
    · exact plain.2 d inside
    · exact isScopeChar_of_isScopeSegment segment d inside

theorem contentName_bare (q : Quote) {suffix : Text} (segment : isScopeSegment suffix = true) :
    ScalarStyle.ofText ("string.quoted." ++ q.label ++ "." ++ suffix) = .bare :=
  bare_of_suffix (by cases q <;> decide) segment

theorem captures_bare (markers : List Marker) {suffix : Text}
    (segment : isScopeSegment suffix = true) :
    ∀ e ∈ capturesOf suffix markers, ScalarStyle.ofText e.2 = .bare := by
  have flag : ScalarStyle.ofText ("storage.type.string." ++ suffix) = .bare :=
    bare_of_suffix (by decide) segment
  have delimiter : ScalarStyle.ofText ("punctuation.definition.string." ++ suffix) = .bare :=
    bare_of_suffix (by decide) segment
  intro e member
  rcases List.mem_append.mp member with active | always
  · split at active
    · cases active
    · rw [List.mem_singleton.mp active]
      exact flag
  · rw [List.mem_singleton.mp always]
    exact delimiter

theorem closing_bare (q : Quote) : ScalarStyle.ofText (closingOf q).source = .bare := by
  cases q <;> decide

theorem opening_bare {markers : List Marker} (canonical : markers.Sublist Marker.canonical)
    (q : Quote) (multiline : Bool) :
    ScalarStyle.ofText (openingOf q multiline markers).source = .bare := by
  have each : ∀ ms ∈ Combination.powerSet Marker.canonical, ∀ q ∈ Quote.all, ∀ multiline : Bool,
      ScalarStyle.ofText (openingOf q multiline ms).source = .bare := by decide
  exact each markers ((Combination.mem_powerSet _ _).mpr canonical) q q.mem_all multiline

theorem references_quoted (markers : List Marker) : ∀ t ∈ referencesOf markers,
    ScalarStyle.ofText t = .singleQuoted ∧ Block.singleQuoted t = '\'' :: t ++ ['\''] := by
  have each : ∀ m : Marker, ScalarStyle.ofText m.reference = .singleQuoted ∧
      Block.singleQuoted m.reference = '\'' :: m.reference ++ ['\''] := by
    intro m
    cases m <;> decide
  intro t member
  unfold referencesOf at member
  rcases List.mem_append.mp member with escape | active
  · split at escape
    · cases escape
    · rw [List.mem_singleton.mp escape]
      exact each .escape
  · obtain ⟨m, -, rfl⟩ := List.mem_map.mp active
    exact each m

theorem describe_eq (q : Quote) (multiline : Bool) (features : Text) :
    describe q multiline features = Text.join " " ((if multiline then ["multi".toList] else []) ++
      (q.label ++ "-quoted") :: (Text.words features ++ ["string".toList])) := by
  have space : Text.isBlank ' ' = true := by decide
  have visible : (q.label ++ "-quoted").all (fun c => !Text.isBlank c) = true := by
    cases q <;> decide
  have cut : ∀ multi : Text, multi ++ " " ++ q.label ++ "-quoted " ++ features ++ " string" =
      multi ++ ' ' :: ((q.label ++ "-quoted") ++ ' ' :: (features ++ ' ' :: "string")) := by
    intro multi
    simp
  have words : ∀ multi : Text,
      Text.words (multi ++ " " ++ q.label ++ "-quoted " ++ features ++ " string") =
        Text.words multi ++ (q.label ++ "-quoted") :: (Text.words features ++ ["string".toList]) := by
    intro multi
    rw [cut, Text.words_append_blank space, Text.words_append_blank space,
      Text.words_append_blank space, Text.words_of_visible (by cases q <;> decide) visible,
      Text.words_of_visible (w := "string".toList) (by decide) (by decide)]
    rfl
  cases multiline with
  | true => exact congrArg (Text.join " ") (words "multi")
  | false => exact congrArg (Text.join " ") (words "")

theorem describe_head (q : Quote) (multiline : Bool) (features : Text) :
    ∃ c rest, describe q multiline features = c :: rest ∧ c ∈ ['m', 's', 'd'] := by
  rw [describe_eq]
  cases multiline with
  | true =>
    obtain ⟨behind, same⟩ := Text.join_starts " " "multi"
      ((q.label ++ "-quoted") :: (Text.words features ++ ["string".toList]))
    exact ⟨'m', _, same, by simp⟩
  | false =>
    obtain ⟨behind, same⟩ := Text.join_starts " " (q.label ++ "-quoted")
      (Text.words features ++ ["string".toList])
    cases q with
    | single => exact ⟨'s', _, same, by simp⟩
    | double => exact ⟨'d', _, same, by simp⟩

theorem describe_last (q : Quote) (multiline : Bool) (features : Text) :
    (describe q multiline features).getLast? = some 'g' := by
  obtain ⟨before, same⟩ := Text.join_ends " " ((if multiline then ["multi".toList] else []) ++
    (q.label ++ "-quoted") :: Text.words features) "string"
  rw [describe_eq, ← List.cons_append, ← List.append_assoc, same, List.getLast?_append]
  rfl

theorem clean_phrase (q : Quote) {multi features : Text} (short : '\x08' ∉ multi)
    (clean : '\x08' ∉ features) :
    '\x08' ∉ multi ++ " " ++ q.label ++ "-quoted " ++ features ++ " string" := by
  have label : '\x08' ∉ q.label := by cases q <;> decide
  simp only [List.mem_append, not_or]
  exact ⟨⟨⟨⟨⟨short, by decide⟩, label⟩, by decide⟩, clean⟩, by decide⟩

theorem describe_bare (q : Quote) (multiline : Bool) {features : Text} (clean : '\x08' ∉ features) :
    ScalarStyle.ofText (describe q multiline features) = .bare := by
  have chars : ∀ d ∈ describe q multiline features, d ∉ ScalarStyle.controls := by
    intro d member control
    have others : ' ' ∉ ScalarStyle.controls := by decide
    have blanks : ScalarStyle.controls.all (fun c => Text.isBlank c || c = '\x08') = true := by
      decide
    rcases Text.mem_collapseBlanks member with rfl | ⟨inside, visible⟩
    · exact others control
    · have either := List.all_eq_true.mp blanks d control
      simp only [visible, Bool.false_or, decide_eq_true_eq] at either
      subst either
      exact clean_phrase q (by cases multiline <;> decide) clean inside
  obtain ⟨c, rest, same, first⟩ := describe_head q multiline features
  have last := describe_last q multiline features
  rw [same] at chars last ⊢
  have starts : ['m', 's', 'd'].all (fun c => !ScalarStyle.indicators.contains c && c ≠ '"' &&
      !Text.isBlank c) = true := by decide
  have starts := List.all_eq_true.mp starts c first
  simp only [Bool.and_eq_true, Bool.not_eq_true', List.contains_eq_mem, decide_eq_false_iff_not,
    decide_eq_true_eq] at starts
  refine ScalarStyle.bare_of_ends starts.1.1 starts.1.2 starts.2 ?_ chars
  intro d found
  rw [last] at found
  cases found
  decide

end Rule

end LiteralGrammar
