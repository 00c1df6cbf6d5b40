import LiteralGrammar.Proofs.Pattern.Search
import LiteralGrammar.Proofs.Pattern.Source
import LiteralGrammar.Proofs.Rule.Building

/-!
Doubled characters, which stand for themselves inside a literal. Escaping a text gives a source that
denotes the text and nothing else, and sources of several texts with bars between them denote these
texts: a bar that a text holds is escaped, so it does not part alternatives. The pattern for the
doubled characters of a rule is of this form.
-/
namespace LiteralGrammar

namespace Pattern

/-- The source can be read, and its pattern matches exactly the texts of the language as a whole. -/
def Denotes (source : Text) (language : Text → Prop) : Prop :=
  ∃ p, ofSource? source = some p ∧ ∀ s, (p.fullMatch? s).isSome = true ↔ language s

theorem join_escape (ts : List Text) :
    Text.join "|" (ts.map escape) = (anyOf (ts.map literal)).source := by
  rw [source_anyOf, List.map_map]
  exact congrArg (Text.join "|") (List.map_congr_left fun t _ => (source_literal t).symm)

theorem formed_anyOf_literal (ts : List Text) : Formed .whole (anyOf (ts.map literal)) := by
  refine formed_anyOf fun p member => ?_
  obtain ⟨t, -, rfl⟩ := List.mem_map.mp member
  exact formed_literal t

theorem join_escape_denotes {ts : List Text} (nonempty : ts ≠ []) :
    Denotes (Text.join "|" (ts.map escape)) (· ∈ ts) := by
  rw [join_escape]
  exact ⟨_, ofSource?_source (formed_anyOf_literal ts),
    isSome_fullMatch?_of_reads (reads_anyOf_literal nonempty)⟩

theorem escape_denotes (t : Text) : Denotes (escape t) (· = t) := by
  rw [← source_literal]
  exact ⟨_, ofSource?_source (.single (formed_literal t)),
    isSome_fullMatch?_of_reads (reads_literal t)⟩

end Pattern

namespace Rule

def doubledTokens (q : Quote) (ms : List Marker) : List Text :=
  if .escape ∈ ms then (ms.filter (· ≠ .escape)).map (·.doubled q) else []

theorem source_doubledOf (q : Quote) (ms : List Marker) :
    (doubledOf q ms).source = Text.join "|" ((doubledTokens q ms).map Pattern.escape) := by
  rw [doubledOf, doubledTokens]
  split
  · rw [Pattern.join_escape, List.map_map]
    rfl
  · rfl

/-- An escaped text is a pattern of itself, escaping goes character by character, and escaped texts
between bars are a pattern of these texts; the pattern for doubled characters is made so. -/
theorem escaped_denotes_itself :
    (∀ t : Text, Pattern.Denotes (Pattern.escape t) (· = t)) ∧
    (∀ t u : Text, Pattern.escape (t ++ u) = Pattern.escape t ++ Pattern.escape u) ∧
    (∀ ts : List Text, ts ≠ [] →
      Pattern.Denotes (Text.join "|" (ts.map Pattern.escape)) (· ∈ ts)) ∧
    ∀ c quote multiline spellings r, build c quote multiline spellings = .ok r →
      r.doubled.source =
        Text.join "|" ((doubledTokens r.quote r.markers).map Pattern.escape) := by
  refine ⟨Pattern.escape_denotes, fun t u => List.flatMap_append, fun ts nonempty => ?_, ?_⟩
  · exact Pattern.join_escape_denotes nonempty
  · intro c quote multiline spellings r built
    obtain ⟨q, ms, -, -, rfl⟩ := parts_of_buildWith built
    exact source_doubledOf q ms

theorem escaped_denotes_itself_bars :
    let ts : List Text := ["a|\\", "", "|"]
    let spellings : List MarkerSpelling :=
      [.symbol (.text "%"), .marker .escape, .symbol (.text "$")]
    let r := Rule.ofMarkers .standard .single false [.escape, .interpolated, .format]
    Text.join "|" (ts.map Pattern.escape) = "a\\|\\\\||\\|" ∧
      Pattern.Denotes "a\\|\\\\||\\|" (· ∈ ts) ∧
      build .standard (.quote .single) false spellings = .ok r ∧ r.doubled.source = "\\$\\$|%%" := by
  intro ts spellings r
  have joined : Text.join "|" (ts.map Pattern.escape) = "a\\|\\\\||\\|" := by decide
  have built : build .standard (.quote .single) false spellings = .ok r := rfl
  refine ⟨joined, ?_, built, ?_⟩
  · rw [← joined]
    exact escaped_denotes_itself.2.2.1 ts (by simp [ts])
  · exact escaped_denotes_itself.2.2.2 _ _ _ _ r built

end Rule

end LiteralGrammar
