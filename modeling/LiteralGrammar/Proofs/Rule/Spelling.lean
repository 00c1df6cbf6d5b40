import LiteralGrammar.Proofs.Rule.Building
import Mathlib.Data.List.Induction
import Mathlib.Data.List.Perm.Basic

/-!
Spelling markers. Spellings are accepted if each is of a marker and no two are of the same one, and
what they are accepted as is the set of these markers in canonical order. Otherwise they are refused
for the first spelling that is of no marker or of one spelt before. So neither the order of the
spellings nor the choice between a marker and its symbol changes what is built from them.
-/
namespace LiteralGrammar

namespace MarkerSpelling

def Spells (s : MarkerSpelling) (m : Marker) : Prop :=
  s = .marker m ∨ s = .symbol (.text [m.symbol])

structure Acceptable (spellings : List MarkerSpelling) : Prop where
  known : ∀ s ∈ spellings, ∃ m, s.Spells m
  apart : spellings.Pairwise fun s t => ∀ m, s.Spells m → ¬t.Spells m

inductive Refused (front : List MarkerSpelling) : MarkerSpelling → MarkerError → Prop where
  | unknown (given : Given) :
      (∀ m, ¬(symbol given).Spells m) → Refused front (.symbol given) (.unknownSymbol given)
  | repeated (s : MarkerSpelling) (m : Marker) :
      s.Spells m → (∃ t ∈ front, t.Spells m) → Refused front s (.duplicate m)

inductive Respelt : MarkerSpelling → MarkerSpelling → Prop where
  | same (s : MarkerSpelling) : Respelt s s
  | bySymbol (m : Marker) : Respelt (.marker m) (.symbol (.text [m.symbol]))
  | byMarker (m : Marker) : Respelt (.symbol (.text [m.symbol])) (.marker m)

def Rearranged (a b : List MarkerSpelling) : Prop :=
  ∃ between, a.Perm between ∧ between.Forall₂ Respelt b

theorem ofSymbol?_symbol (m : Marker) : Marker.ofSymbol? (.text [m.symbol]) = some m := by
  cases m <;> decide

theorem eq_of_ofSymbol? {given : Given} {m : Marker} (found : Marker.ofSymbol? given = some m) :
    given = .text [m.symbol] := by
  rw [Marker.ofSymbol?] at found
  have spelt := List.find?_some found
  exact of_decide_eq_true spelt

theorem resolve_symbol (m : Marker) : (symbol (.text [m.symbol])).resolve = .ok m := by
  rw [resolve, ofSymbol?_symbol]

theorem resolve_eq_ok_iff (s : MarkerSpelling) (m : Marker) : s.resolve = .ok m ↔ s.Spells m := by
  constructor
  · intro resolved
    cases s with
    | marker n => exact Or.inl (congrArg marker (Except.ok.inj resolved))
    | symbol given =>
      rw [resolve] at resolved
      split at resolved
      · next n found =>
        obtain rfl := Except.ok.inj resolved
        exact Or.inr (congrArg symbol (eq_of_ofSymbol? found))
      · cases resolved
  · rintro (rfl | rfl)
    · rfl
    · exact resolve_symbol m

theorem spells_unique {s : MarkerSpelling} {m n : Marker} (first : s.Spells m)
    (second : s.Spells n) : m = n := by
  have resolved := (resolve_eq_ok_iff s m).mpr first
  rw [(resolve_eq_ok_iff s n).mpr second] at resolved
  exact (Except.ok.inj resolved).symm

theorem resolve_eq_error {s : MarkerSpelling} {e : MarkerError} (failed : s.resolve = .error e) :
    ∃ given, s = .symbol given ∧ e = .unknownSymbol given := by
  cases s with
  | marker m => cases failed
  | symbol given =>
    rw [resolve] at failed
    split at failed
    · cases failed
    · exact ⟨given, rfl, (Except.error.inj failed).symm⟩

section Names

variable {spellings : List MarkerSpelling} {ms : List Marker}

theorem ok_injective : Function.Injective (Except.ok : Marker → Except MarkerError Marker) :=
  fun _ _ => Except.ok.inj

theorem mem_iff_of_name (names : Name spellings ms) (m : Marker) :
    m ∈ ms ↔ ∃ s ∈ spellings, s.Spells m := by
  rw [← List.mem_map_of_injective ok_injective, ← names, List.mem_map]
  simp only [resolve_eq_ok_iff]

theorem exists_names (known : ∀ s ∈ spellings, ∃ m, s.Spells m) : ∃ ms, Name spellings ms := by
  induction spellings with
  | nil => exact ⟨[], rfl⟩
  | cons s rest ih =>
    obtain ⟨⟨m, spelt⟩, known⟩ := List.forall_mem_cons.mp known
    obtain ⟨ms, names⟩ := ih known
    exact ⟨m :: ms, congrArg₂ List.cons ((resolve_eq_ok_iff s m).mpr spelt) names⟩

theorem known_of_subset (names : Name spellings ms) {others : List MarkerSpelling}
    (sub : others.map resolve ⊆ spellings.map resolve) : ∀ s ∈ others, ∃ m, s.Spells m := by
  intro s member
  have resolved := sub (List.mem_map_of_mem member)
  rw [names] at resolved
  obtain ⟨m, -, same⟩ := List.mem_map.mp resolved
  exact ⟨m, (resolve_eq_ok_iff s m).mp same.symm⟩

theorem nodup_iff_of_names (names : Name spellings ms) :
    ms.Nodup ↔ (spellings.map resolve).Nodup := by
  rw [names, List.nodup_map_iff ok_injective]

theorem apart_iff_of_names (names : Name spellings ms) :
    (spellings.Pairwise fun s t => ∀ m, s.Spells m → ¬t.Spells m) ↔ ms.Nodup := by
  rw [nodup_iff_of_names names, List.Nodup, List.pairwise_map]
  have apart : ∀ {s t : MarkerSpelling}, s ∈ spellings → t ∈ spellings →
      ((∀ m, s.Spells m → ¬t.Spells m) ↔ s.resolve ≠ t.resolve) := by
    intro s t inside _
    obtain ⟨m, spelt⟩ := known_of_subset names (List.Subset.refl _) s inside
    simp only [← resolve_eq_ok_iff] at spelt ⊢
    simp [spelt, eq_comm]
  exact List.Pairwise.iff_of_mem apart

theorem acceptable_iff (spellings : List MarkerSpelling) :
    Acceptable spellings ↔ ∃ ms, Name spellings ms ∧ ms.Nodup := by
  constructor
  · intro acceptable
    obtain ⟨ms, names⟩ := exists_names acceptable.known
    exact ⟨ms, names, (apart_iff_of_names names).mp acceptable.apart⟩
  · rintro ⟨ms, names, distinct⟩
    exact ⟨known_of_subset names (List.Subset.refl _), (apart_iff_of_names names).mpr distinct⟩

theorem Acceptable.of_perm {a b : List MarkerSpelling} (acceptable : Acceptable a)
    (perm : (a.map resolve).Perm (b.map resolve)) : Acceptable b := by
  obtain ⟨ms, names, distinct⟩ := (acceptable_iff a).mp acceptable
  obtain ⟨ns, names'⟩ := exists_names (known_of_subset names perm.symm.subset)
  rw [nodup_iff_of_names names, perm.nodup_iff] at distinct
  exact (acceptable_iff b).mpr ⟨ns, names', (nodup_iff_of_names names').mpr distinct⟩

end Names

theorem Acceptable.length_le {spellings : List MarkerSpelling} (acceptable : Acceptable spellings) :
    spellings.length ≤ markerCount := by
  obtain ⟨ms, names, distinct⟩ := (acceptable_iff spellings).mp acceptable
  have lengths := congrArg List.length names
  rw [List.length_map, List.length_map] at lengths
  rw [lengths]
  exact distinct.length_le_of_subset fun m _ => m.mem_canonical

theorem normalize_eq_ok_iff (spellings : List MarkerSpelling) (ms : List Marker) :
    normalize spellings = .ok ms ↔ Acceptable spellings ∧ ms.Sublist Marker.canonical ∧
      ∀ m, m ∈ ms ↔ ∃ s ∈ spellings, s.Spells m := by
  rw [acceptable_iff]
  constructor
  · intro ok
    obtain ⟨given, names, distinct, perm⟩ := names_of_normalize ok
    exact ⟨⟨given, names, distinct⟩, normalize_sublist ok,
      fun m => perm.mem_iff.trans (mem_iff_of_name names m)⟩
  · rintro ⟨⟨given, names, distinct⟩, sub, members⟩
    have same : ∀ m, m ∈ given ↔ m ∈ ms := fun m => (mem_iff_of_name names m).trans (members m).symm
    rw [normalize_of_names names distinct]
    simp only [same, filter_canonical_eq sub]

theorem normalize_of_refused {front : List MarkerSpelling} (acceptable : Acceptable front)
    {s : MarkerSpelling} {e : MarkerError} (refused : Refused front s e)
    (rest : List MarkerSpelling) : normalize (front ++ s :: rest) = .error e := by
  obtain ⟨ms, names, distinct⟩ := (acceptable_iff front).mp acceptable
  have passed := resolveAll_of_names names distinct (s :: rest)
  have stops : resolveAll ms (s :: rest) = .error e := by
    rw [resolveAll]
    cases refused with
    | unknown given unspelt =>
      cases resolved : (symbol given).resolve with
      | ok m => exact absurd ((resolve_eq_ok_iff _ m).mp resolved) (unspelt m)
      | error e =>
        obtain ⟨_, same, rfl⟩ := resolve_eq_error resolved
        cases same
        rfl
    | repeated _ m spelt before =>
      rw [(resolve_eq_ok_iff s m).mpr spelt]
      exact if_pos ((mem_iff_of_name names m).mpr before)
  rw [normalize, passed, stops]
  rfl

theorem Acceptable.concat {front : List MarkerSpelling} (acceptable : Acceptable front)
    {s : MarkerSpelling} {m : Marker} (spelt : s.Spells m) (new : ¬∃ t ∈ front, t.Spells m) :
    Acceptable (front ++ [s]) := by
  constructor
  · intro t member
    rcases List.mem_append.mp member with before | last
    · exact acceptable.known t before
    · exact ⟨m, List.mem_singleton.mp last ▸ spelt⟩
  · refine List.pairwise_append.mpr ⟨acceptable.apart, List.pairwise_singleton _ s, ?_⟩
    intro t before u last n spelt_t spelt_u
    obtain rfl := List.mem_singleton.mp last
    exact new ⟨t, before, spells_unique spelt_u spelt ▸ spelt_t⟩

theorem acceptable_or_refused (spellings : List MarkerSpelling) :
    Acceptable spellings ∨ ∃ front s rest e, spellings = front ++ s :: rest ∧
      Acceptable front ∧ Refused front s e := by
  induction spellings using List.reverseRecOn with
  | nil => exact Or.inl ⟨by simp, List.Pairwise.nil⟩
  | append_singleton front s ih =>
    rcases ih with acceptable | ⟨front', s', rest, e, rfl, acceptable, refused⟩
    · by_cases known : ∃ m, s.Spells m
      · obtain ⟨m, spelt⟩ := known
        by_cases before : ∃ t ∈ front, t.Spells m
        · exact Or.inr ⟨front, s, [], _, rfl, acceptable, .repeated s m spelt before⟩
        · exact Or.inl (acceptable.concat spelt before)
      · cases s with
        | marker m => exact absurd ⟨m, Or.inl rfl⟩ known
        | symbol given =>
          exact Or.inr ⟨front, _, [], _, rfl, acceptable, .unknown given (not_exists.mp known)⟩
    · exact Or.inr ⟨front', s', rest ++ [s], e, by simp, acceptable, refused⟩

theorem exists_normalize {spellings : List MarkerSpelling} (acceptable : Acceptable spellings) :
    ∃ ms, normalize spellings = .ok ms := by
  obtain ⟨ms, names, distinct⟩ := (acceptable_iff spellings).mp acceptable
  exact ⟨_, normalize_of_names names distinct⟩

theorem normalize_eq_error_iff (spellings : List MarkerSpelling) (e : MarkerError) :
    normalize spellings = .error e ↔ ∃ front s rest, spellings = front ++ s :: rest ∧
      Acceptable front ∧ Refused front s e := by
  constructor
  · intro failed
    rcases acceptable_or_refused spellings with acceptable | ⟨front, s, rest, e', rfl, ok, refused⟩
    · obtain ⟨ms, accepted⟩ := exists_normalize acceptable
      rw [accepted] at failed
      cases failed
    · rw [normalize_of_refused ok refused] at failed
      obtain rfl := Except.error.inj failed
      exact ⟨front, s, rest, rfl, ok, refused⟩
  · rintro ⟨front, s, rest, rfl, acceptable, refused⟩
    exact normalize_of_refused acceptable refused rest

theorem resolve_of_respelt {s t : MarkerSpelling} (respelt : Respelt s t) :
    s.resolve = t.resolve := by
  cases respelt with
  | same => rfl
  | bySymbol m => exact (resolve_symbol m).symm
  | byMarker m => exact resolve_symbol m

theorem map_resolve_of_respelt {a b : List MarkerSpelling} (respelt : a.Forall₂ Respelt b) :
    a.map resolve = b.map resolve := by
  induction respelt with
  | nil => rfl
  | cons first _ ih => exact congrArg₂ List.cons (resolve_of_respelt first) ih

theorem map_resolve_perm {a b : List MarkerSpelling} (rearranged : Rearranged a b) :
    (a.map resolve).Perm (b.map resolve) := by
  obtain ⟨between, perm, respelt⟩ := rearranged
  exact map_resolve_of_respelt respelt ▸ perm.map resolve

/-- What resolves to the same markers, in any order, is accepted as the same. -/
theorem normalize_of_perm {a b : List MarkerSpelling} (perm : (a.map resolve).Perm (b.map resolve))
    {ms : List Marker} (ok : normalize a = .ok ms) : normalize b = .ok ms := by
  obtain ⟨acceptable, sub, members⟩ := (normalize_eq_ok_iff a ms).mp ok
  refine (normalize_eq_ok_iff b ms).mpr ⟨acceptable.of_perm perm, sub, fun m => ?_⟩
  rw [members m]
  have resolved := perm.mem_iff (a := .ok m)
  simpa only [List.mem_map, resolve_eq_ok_iff] using resolved

end MarkerSpelling

namespace Rule

open MarkerSpelling

theorem build_of_perm {c : Config} {quote : QuoteSpelling} {multiline : Bool}
    {a b : List MarkerSpelling} {r : Rule} (perm : (a.map resolve).Perm (b.map resolve))
    (built : build c quote multiline a = .ok r) : build c quote multiline b = .ok r := by
  obtain ⟨q, ms, resolved, normal, rfl⟩ := parts_of_buildWith built
  rw [build, buildWith, resolved, normalize_of_perm perm normal]
  rfl

/-- Spellings are accepted if they are of distinct markers, and then as these in canonical order;
else they are refused for the first that is of none or of one spelt before. A rule built from them
does not tell how, or in which order, the markers were spelt. -/
theorem markers_counted_as_set :
    (∀ spellings ms, MarkerSpelling.normalize spellings = .ok ms ↔ Acceptable spellings ∧
      ms.Sublist Marker.canonical ∧ ∀ m, m ∈ ms ↔ ∃ s ∈ spellings, s.Spells m) ∧
    (∀ spellings, Acceptable spellings → spellings.length ≤ 4 ∧
      ∃ ms, MarkerSpelling.normalize spellings = .ok ms ∧
        MarkerSpelling.normalize (ms.map .marker) = .ok ms) ∧
    (∀ spellings e, MarkerSpelling.normalize spellings = .error e ↔ ∃ front s rest,
      spellings = front ++ s :: rest ∧ Acceptable front ∧ Refused front s e) ∧
    ∀ c quote multiline a b, Rearranged a b →
      (∃ r, build c quote multiline a = .ok r ∧ build c quote multiline b = .ok r) ∨
      ∃ e e', build c quote multiline a = .error e ∧ build c quote multiline b = .error e' := by
  refine ⟨normalize_eq_ok_iff, fun spellings acceptable => ⟨acceptable.length_le, ?_⟩,
    normalize_eq_error_iff, fun c quote multiline a b rearranged => ?_⟩
  · obtain ⟨ms, ok⟩ := exists_normalize acceptable
    exact ⟨ms, ok, normalize_markers (normalize_sublist ok)⟩
  · have perm := map_resolve_perm rearranged
    cases built : build c quote multiline a with
    | ok r => exact Or.inl ⟨r, rfl, build_of_perm perm built⟩
    | error e =>
      cases built' : build c quote multiline b with
      | ok r =>
        rw [build_of_perm perm.symm built'] at built
        cases built
      | error e' => exact Or.inr ⟨e, e', rfl, rfl⟩

theorem markers_counted_as_set_respelt :
    let a : List MarkerSpelling := [.symbol (.text "%"), .marker .escape]
    let b : List MarkerSpelling := [.symbol (.text "\\"), .marker .format]
    let r := ofMarkers .standard .double true [.escape, .format]
    Rearranged a b ∧ Acceptable a ∧ a.length ≤ 4 ∧
      MarkerSpelling.normalize (a ++ .symbol (.text "%") :: [.symbol .nothing])
        = .error (.duplicate .format) ∧
      build .standard (.quote .double) true a = .ok r ∧
      build .standard (.quote .double) true b = .ok r := by
  intro a b r
  have rearranged : Rearranged a b :=
    ⟨_, List.Perm.swap .., .cons (.bySymbol .escape) (.cons (.byMarker .format) .nil)⟩
  have ok : MarkerSpelling.normalize a = .ok [.escape, .format] := by decide
  have acceptable := ((markers_counted_as_set.1 a _).mp ok).1
  have third := (markers_counted_as_set.2.2.1 _ _).mpr ⟨a, _, [.symbol .nothing], rfl, acceptable,
    .repeated (.symbol (.text "%")) .format (Or.inr rfl) ⟨_, List.mem_cons_self, Or.inr rfl⟩⟩
  have built : build .standard (.quote .double) true a = .ok r := rfl
  refine ⟨rearranged, acceptable, (markers_counted_as_set.2.1 a acceptable).1, third, built, ?_⟩
  rcases markers_counted_as_set.2.2.2 .standard (.quote .double) true a b rearranged with
    ⟨r', first, second⟩ | ⟨e, _, first, _⟩
  · rw [built] at first
    exact Except.ok.inj first ▸ second
  · rw [built] at first
    cases first

end Rule

end LiteralGrammar
