import LiteralGrammar.Rule
import Mathlib.Data.List.Nodup

/-!
What a rule is built from: a quote, and markers that are spelt once each, in any order. Markers in
canonical order are built as they are.
-/
namespace LiteralGrammar

namespace MarkerSpelling

def Name (spellings : List MarkerSpelling) (ms : List Marker) : Prop :=
  spellings.map resolve = ms.map .ok

theorem names_of_resolveAll {seen all : List Marker} {spellings : List MarkerSpelling}
    (ok : resolveAll seen spellings = .ok all) (distinct : seen.Nodup) :
    ∃ ms, Name spellings ms ∧ all = seen ++ ms ∧ all.Nodup := by
  induction spellings generalizing seen with
  | nil =>
    cases ok
    exact ⟨[], rfl, by simp, distinct⟩
  | cons s rest ih =>
    unfold resolveAll at ok
    cases named : s.resolve with
    | error e =>
      rw [named] at ok
      cases ok
    | ok m =>
      rw [named] at ok
      change (if m ∈ seen then _ else _) = _ at ok
      by_cases repeated : m ∈ seen
      · rw [if_pos repeated] at ok
        cases ok
      · rw [if_neg repeated] at ok
        have apart : (seen ++ [m]).Nodup :=
          List.Nodup.append distinct (List.nodup_singleton m) (by simpa using repeated)
        obtain ⟨ms, names, same, distinct⟩ := ih ok apart
        refine ⟨m :: ms, ?_, by rw [same, List.append_assoc, List.singleton_append], distinct⟩
        exact congrArg₂ List.cons named names

/-- All markers are canonical, so only the order changes. -/
theorem filter_canonical_perm {given : List Marker} (distinct : given.Nodup) :
    (Marker.canonical.filter (· ∈ given)).Perm given := by
  rw [List.perm_ext_iff_of_nodup (Marker.canonical_nodup.filter _) distinct]
  intro m
  simp [Marker.mem_canonical]

theorem resolved_of_normalize {spellings : List MarkerSpelling} {ms : List Marker}
    (ok : normalize spellings = .ok ms) :
    ∃ given, resolveAll [] spellings = .ok given ∧ ms = Marker.canonical.filter (· ∈ given) := by
  unfold normalize at ok
  cases resolved : resolveAll [] spellings with
  | error e =>
    rw [resolved] at ok
    cases ok
  | ok given =>
    rw [resolved] at ok
    cases ok
    exact ⟨given, rfl, rfl⟩

theorem names_of_normalize {spellings : List MarkerSpelling} {ms : List Marker}
    (ok : normalize spellings = .ok ms) :
    ∃ given, Name spellings given ∧ given.Nodup ∧ ms.Perm given := by
  obtain ⟨all, resolved, rfl⟩ := resolved_of_normalize ok
  obtain ⟨given, names, same, distinct⟩ := names_of_resolveAll resolved List.nodup_nil
  obtain rfl : all = given := same
  exact ⟨all, names, distinct, filter_canonical_perm distinct⟩

theorem normalize_sublist {spellings : List MarkerSpelling} {ms : List Marker}
    (ok : normalize spellings = .ok ms) : ms.Sublist Marker.canonical := by
  obtain ⟨given, -, rfl⟩ := resolved_of_normalize ok
  exact List.filter_sublist

theorem resolveAll_append {seen ms : List Marker} {front : List MarkerSpelling}
    (names : Name front ms) (distinct : (seen ++ ms).Nodup) (later : List MarkerSpelling) :
    resolveAll seen (front ++ later) = resolveAll (seen ++ ms) later := by
  induction front generalizing seen ms with
  | nil =>
    obtain rfl : ms = [] := List.map_eq_nil_iff.mp names.symm
    rw [List.append_nil, List.nil_append]
  | cons s front ih =>
    obtain ⟨m, ms, rfl, first, names⟩ := List.map_eq_cons_iff.mp names.symm
    have unseen : m ∉ seen := fun member =>
      (List.nodup_append.mp distinct).2.2 m member m List.mem_cons_self rfl
    rw [List.append_cons] at distinct ⊢
    rw [← ih names.symm distinct, List.cons_append, resolveAll, ← first]
    exact if_neg unseen

theorem resolveAll_of_names {front : List MarkerSpelling} {ms : List Marker} (names : Name front ms)
    (distinct : ms.Nodup) (later : List MarkerSpelling) :
    resolveAll [] (front ++ later) = resolveAll ms later := by
  have unseen : ([] ++ ms).Nodup := distinct
  exact resolveAll_append names unseen later

theorem normalize_of_names {spellings : List MarkerSpelling} {ms : List Marker}
    (names : Name spellings ms) (distinct : ms.Nodup) :
    normalize spellings = .ok (Marker.canonical.filter (· ∈ ms)) := by
  have resolved := resolveAll_of_names names distinct []
  rw [List.append_nil, resolveAll] at resolved
  rw [normalize, resolved]
  rfl

theorem filter_canonical_eq {ms : List Marker} (sub : ms.Sublist Marker.canonical) :
    Marker.canonical.filter (· ∈ ms) = ms := by
  have kept := sub.filter (· ∈ ms)
  rw [List.filter_eq_self.mpr (by simp)] at kept
  have distinct := Marker.canonical_nodup.sublist sub
  exact (kept.eq_of_length (filter_canonical_perm distinct).length_eq.symm).symm

theorem normalize_markers {ms : List Marker} (sub : ms.Sublist Marker.canonical) :
    normalize (ms.map .marker) = .ok ms := by
  have names : Name (ms.map .marker) ms := List.map_map
  rw [normalize_of_names names (Marker.canonical_nodup.sublist sub), filter_canonical_eq sub]

end MarkerSpelling

/-- A build is over the quote and the markers that are spelt. -/
theorem Rule.parts_of_buildWith {suffix : Text} {join : List Text → Text} {quote : QuoteSpelling}
    {multiline : Bool} {markers : List MarkerSpelling} {r : Rule}
    (ok : buildWith suffix join quote multiline markers = .ok r) :
    ∃ q ms, quote.resolve = .ok q ∧ MarkerSpelling.normalize markers = .ok ms ∧
      r = ofFeatures suffix (featuresOf join ms) q multiline ms := by
  unfold buildWith at ok
  cases quoted : quote.resolve with
  | error e =>
    rw [quoted] at ok
    cases ok
  | ok q =>
    cases normal : MarkerSpelling.normalize markers with
    | error e =>
      rw [quoted, normal] at ok
      cases ok
    | ok ms =>
      rw [quoted, normal] at ok
      cases ok
      exact ⟨q, ms, rfl, rfl, rfl⟩

theorem Rule.build_markers (c : Config) (q : Quote) (multiline : Bool) {ms : List Marker}
    (sub : ms.Sublist Marker.canonical) :
    build c (.quote q) multiline (ms.map .marker) = .ok (ofMarkers c q multiline ms) := by
  rw [build, buildWith, MarkerSpelling.normalize_markers sub]
  rfl

end LiteralGrammar
