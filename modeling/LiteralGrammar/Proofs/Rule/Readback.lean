import LiteralGrammar.Proofs.Rule.Building
import LiteralGrammar.Proofs.Rule.Strings
import LiteralGrammar.Proofs.Text.Runs

/-!
Reading a rule back. The source of the opening gives the quote, the tripling and the markers, the
content name gives the suffix, and with the description that is all that a built rule holds.
-/
namespace LiteralGrammar

theorem Locale.clean_english {words : List Text} (clean : ∀ word ∈ words, '\x08' ∉ word) :
    '\x08' ∉ english.join words := by
  obtain ⟨back, rfl⟩ := List.reverse_surjective words
  simp only [List.mem_reverse] at clean
  simp only [english, List.reverse_reverse]
  rcases back with _ | ⟨last, _ | ⟨first, _ | ⟨before, rest⟩⟩⟩
  · exact List.not_mem_nil
  · exact clean last (.head _)
  · simp [clean]
  · have front : '\x08' ∉ Text.join ", " (first :: before :: rest).reverse :=
      (Text.clean_join (by decide) _).mpr fun word member =>
        clean word (.tail _ (List.mem_reverse.mp member))
    have last : '\x08' ∉ last := clean last (.head _)
    simp only [List.mem_append, not_or]
    exact ⟨⟨front, by decide⟩, last⟩

namespace Rule

/-- What a build gives, with lists that are put together in any way but hold no backspace. -/
def Built (r : Rule) : Prop :=
  ∃ suffix join quote multiline markers, isScopeSegment suffix = true ∧
    (∀ ms : List Marker, '\x08' ∉ (join (ms.map Marker.displayName) : Text)) ∧
    buildWith suffix join quote multiline markers = .ok r

theorem clean_displayName (m : Marker) : '\x08' ∉ m.displayName := by
  cases m <;> decide

theorem built_of_build {c : Config} {quote : QuoteSpelling} {multiline : Bool}
    {markers : List MarkerSpelling} {r : Rule}
    (clean : ∀ ms : List Marker, '\x08' ∉ c.locale.join (ms.map Marker.displayName))
    (ok : build c quote multiline markers = .ok r) : r.Built :=
  ⟨_, _, quote, multiline, markers, c.isSegment, clean, ok⟩

theorem clean_featuresOf {join : List Text → Text}
    (clean : ∀ ms : List Marker, '\x08' ∉ join (ms.map Marker.displayName)) (ms : List Marker) :
    '\x08' ∉ featuresOf join ms := by
  have plain : '\x08' ∉ ("plain" : Text) := by decide
  cases ms with
  | nil => exact plain
  | cons m rest =>
    cases rest with
    | nil => exact clean_displayName m
    | cons next rest => exact clean (m :: next :: rest)

theorem parts_of_built {r : Rule} (built : r.Built) : ∃ suffix features q multiline ms,
    isScopeSegment suffix = true ∧ '\x08' ∉ features ∧ ms.Sublist Marker.canonical ∧
      r = ofFeatures suffix features q multiline ms := by
  obtain ⟨suffix, join, quote, multiline, markers, segment, clean, ok⟩ := built
  obtain ⟨q, ms, -, normal, rfl⟩ := parts_of_buildWith ok
  exact ⟨suffix, _, q, multiline, ms, segment, clean_featuresOf clean ms,
    MarkerSpelling.normalize_sublist normal, rfl⟩

theorem opening_source (q : Quote) (multiline : Bool) (ms : List Marker) :
    (openingOf q multiline ms).source = "\\s*(" ++ ((flag ms).source ++ ')' :: '(' ::
      ((delimiter q multiline).source ++ ')' :: "\\s*")) := by
  simp [openingOf, blanks, Pattern.inOrder, Pattern.source]

theorem flag_source_unique : ∀ ms ∈ Combination.powerSet Marker.canonical,
    ')' ∉ (flag ms).source ∧ ∀ ms' ∈ Combination.powerSet Marker.canonical,
      (flag ms).source = (flag ms').source → ms = ms' := by
  decide

theorem delimiter_source_unique : ∀ q ∈ Quote.all, ∀ multiline : Bool,
    ')' ∉ (delimiter q multiline).source ∧ ∀ q' ∈ Quote.all, ∀ multiline' : Bool,
      (delimiter q multiline).source = (delimiter q' multiline').source →
        q = q' ∧ multiline = multiline' := by
  decide

theorem opening_unique {q q' : Quote} {multiline multiline' : Bool} {ms ms' : List Marker}
    (canonical : ms.Sublist Marker.canonical) (canonical' : ms'.Sublist Marker.canonical)
    (same : (openingOf q multiline ms).source = (openingOf q' multiline' ms').source) :
    q = q' ∧ multiline = multiline' ∧ ms = ms' := by
  have canonical := (Combination.mem_powerSet _ _).mpr canonical
  have canonical' := (Combination.mem_powerSet _ _).mpr canonical'
  rw [opening_source, opening_source] at same
  obtain ⟨closed, flags⟩ := flag_source_unique ms canonical
  obtain ⟨closed', -⟩ := flag_source_unique ms' canonical'
  obtain ⟨flag_same, behind⟩ := Text.cut_unique closed closed' (List.append_cancel_left same)
  obtain ⟨closed, delimiters⟩ := delimiter_source_unique q (Quote.mem_all q) multiline
  obtain ⟨closed', -⟩ := delimiter_source_unique q' (Quote.mem_all q') multiline'
  obtain ⟨delimiter_same, -⟩ := Text.cut_unique closed closed' (List.cons.inj behind).2
  obtain ⟨quotes, tripled⟩ := delimiters q' (Quote.mem_all q') multiline' delimiter_same
  exact ⟨quotes, tripled, flags ms' canonical' flag_same⟩

/-- Three texts tell built rules apart, also where they differ in what no document shows. -/
theorem built_unique {r s : Rule} (built_r : r.Built) (built_s : s.Built)
    (description : r.description = s.description) (opening : r.opening.source = s.opening.source)
    (contentName : r.contentName = s.contentName) : r = s := by
  obtain ⟨suffix, features, q, multiline, ms, -, -, canonical, rfl⟩ := parts_of_built built_r
  obtain ⟨suffix', features', q', multiline', ms', -, -, canonical', rfl⟩ := parts_of_built built_s
  obtain ⟨rfl, rfl, rfl⟩ := opening_unique canonical canonical' opening
  have suffixes : suffix = suffix' := List.append_cancel_left contentName
  have descriptions : describe q multiline features = describe q multiline features' := description
  rw [ofFeatures, ofFeatures, suffixes, descriptions]

end Rule

end LiteralGrammar
