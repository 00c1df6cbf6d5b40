import LiteralGrammar.Proofs.Pattern.Search
import LiteralGrammar.Proofs.Pattern.Source
import LiteralGrammar.Proofs.Rule.Building
import LiteralGrammar.Proofs.RuleSet.Delimiters

/-!
The language of an opening. Read from its source, the opening pattern of a rule matches a text as a
whole where the text is blanks, a flag of the markers as they were spelt, a delimiter, and blanks;
no text is so in two ways, and the groups hold the flag and the delimiter.
-/
namespace LiteralGrammar.Rule

/-- The parts of a text that opens a literal and holds nothing else. -/
structure IsOpening (q : Quote) (multiline : Bool) (ms : List Marker) (w f d v : Text) : Prop where
  front : ∀ c ∈ w, Text.isBlank c = true
  flag : IsFlag ms f
  delimiter : IsDelimiter q multiline d
  behind : ∀ c ∈ v, Text.isBlank c = true

structure Accepts (p : Pattern) (q : Quote) (multiline : Bool) (ms : List Marker) : Prop where
  whole : ∀ s, (p.fullMatch? s).isSome = true ↔
    ∃ w f d v, IsOpening q multiline ms w f d v ∧ s = w ++ (f ++ (d ++ v))
  keeps : ∀ w f d v, IsOpening q multiline ms w f d v →
    ∃ e, p.fullMatch? (w ++ (f ++ (d ++ v))) = some e ∧
      e.groups.lookup flagGroup = some f ∧ e.groups.lookup delimiterGroup = some d

section Source

open Pattern (Formed)

theorem formed_flag (ms : List Marker) : Formed .whole (flag ms) := by
  match ms with
  | [] => exact .single .empty
  | [m] => exact .single (.filled (.last (.once (.char m.symbol))))
  | m :: next :: rest =>
    have symbols : (m :: next :: rest).map Marker.symbol ≠ [] := by simp
    exact .single (.filled (.last (.plus (.oneOf symbols))))

theorem formed_delimiter (q : Quote) (multiline : Bool) : Formed .whole (delimiter q multiline) := by
  have quote : Formed .atom (.char q.char) := .char q.char
  cases multiline with
  | false => exact .single (.filled (.last (.once quote)))
  | true => exact .single (.filled (.seq (.once quote) (.seq (.once quote) (.last (.plus quote)))))

theorem formed_opening (q : Quote) (multiline : Bool) (ms : List Marker) :
    Formed .whole (openingOf q multiline ms) := by
  have edge : Formed .piece blanks := .star .blank
  have flags : Formed .piece (.group (flag ms)) := .once (.group (formed_flag ms))
  have delimiters : Formed .piece (.group (delimiter q multiline)) :=
    .once (.group (formed_delimiter q multiline))
  exact .single (.filled (.seq edge (.seq flags (.seq delimiters (.last edge)))))

end Source

theorem isFlag_iff_of_perm {ms ns : List Marker} (perm : ms.Perm ns) (f : Text) :
    IsFlag ms f ↔ IsFlag ns f := by
  have symbols : ∀ c, c ∈ ms.map Marker.symbol ↔ c ∈ ns.map Marker.symbol :=
    fun c => (perm.map Marker.symbol).mem_iff
  match ms, ns with
  | [], [] | [m], [n] => simp_all [IsFlag]
  | _ :: _ :: _, _ :: _ :: _ => simp only [IsFlag, symbols]
  | [], _ :: _ | [_], [] | [_], _ :: _ :: _ | _ :: _ :: _, [] | _ :: _ :: _, [_] =>
    simpa using perm.length_eq

namespace IsOpening

variable {q : Quote} {multiline : Bool} {ms : List Marker} {w f d v : Text}

theorem of_perm {ns : List Marker} (perm : ms.Perm ns) :
    IsOpening q multiline ms w f d v ↔ IsOpening q multiline ns w f d v := by
  constructor
  · intro opening
    exact { opening with flag := (isFlag_iff_of_perm perm f).mp opening.flag }
  · intro opening
    exact { opening with flag := (isFlag_iff_of_perm perm f).mpr opening.flag }

theorem symbols (opening : IsOpening q multiline ms w f d v) :
    ∀ c ∈ f, c ∈ Marker.canonical.map Marker.symbol :=
  fun c member => Marker.map_symbol_subset ms (mem_of_isFlag opening.flag c member)

theorem run (opening : IsOpening q multiline ms w f d v) :
    ∃ n, 0 < n ∧ d = List.replicate n q.char := by
  obtain ⟨n, long, same⟩ := opening.delimiter
  exact ⟨n, by split at long <;> omega, same⟩

theorem unique {w' f' d' v' : Text} (opening : IsOpening q multiline ms w f d v)
    (other : IsOpening q multiline ms w' f' d' v')
    (same : w ++ (f ++ (d ++ v)) = w' ++ (f' ++ (d' ++ v'))) : f = f' ∧ d = d' := by
  obtain ⟨n, positive, rfl⟩ := opening.run
  obtain ⟨k, positive', rfl⟩ := other.run
  have marks : ∀ n, ∀ c ∈ List.replicate n q.char, c = q.char := fun n c => List.eq_of_mem_replicate
  have ends : ∀ {v : Text}, (∀ c ∈ v, Text.isBlank c = true) → Text.Stops (· = q.char) v := by
    rintro v blank c head rfl
    simpa [q.char_not_blank] using blank _ (List.mem_of_head? head)
  obtain ⟨-, flagged⟩ := Text.run_unique opening.front other.front
    (Literal.visible opening.symbols positive) (Literal.visible other.symbols positive') same
  obtain ⟨flags, delimited⟩ := Text.run_unique opening.symbols other.symbols
    (q.stops_replicate positive v) (q.stops_replicate positive' v') flagged
  obtain ⟨delimiters, -⟩ := Text.run_unique (marks n) (marks k) (ends opening.behind)
    (ends other.behind) delimited
  exact ⟨flags, delimiters⟩

theorem shortest (q : Quote) (multiline : Bool) (ms : List Marker) :
    IsOpening q multiline ms [] (ms.map Marker.symbol)
      (List.replicate (if multiline then 3 else 1) q.char) [] where
  front := by simp
  flag := by
    match ms with
    | [] | [_] => rfl
    | _ :: _ :: _ => exact ⟨by simp, fun _ member => member⟩
  delimiter := ⟨_, by cases multiline <;> decide, rfl⟩
  behind := by simp

end IsOpening

theorem openingOf_accepts (q : Quote) (multiline : Bool) (ms : List Marker) :
    Accepts (openingOf q multiline ms) q multiline ms := by
  have whole : ∀ s, ((openingOf q multiline ms).fullMatch? s).isSome = true ↔
      ∃ w f d v, IsOpening q multiline ms w f d v ∧ s = w ++ (f ++ (d ++ v)) := by
    intro s
    rw [Pattern.isSome_fullMatch?_iff]
    simp only [mem_ways_opening, Pattern.Cursor.ofText, List.append_nil]
    constructor
    · rintro ⟨_, w, f, d, v, front, flag, delimiter, behind, split, -⟩
      exact ⟨w, f, d, v, ⟨front, flag, delimiter, behind⟩, split⟩
    · rintro ⟨w, f, d, v, ⟨front, flag, delimiter, behind⟩, split⟩
      exact ⟨_, w, f, d, v, front, flag, delimiter, behind, split, rfl⟩
  refine ⟨whole, fun w f d v opening => ?_⟩
  obtain ⟨e, found⟩ := Option.isSome_iff_exists.mp ((whole _).mpr ⟨w, f, d, v, opening, rfl⟩)
  obtain ⟨member, ended⟩ := Pattern.ways_of_fullMatch? found
  obtain ⟨w', f', d', v', front, flag, delimiter, behind, split, kept⟩ :=
    (mem_ways_opening q multiline ms _ e).mp member
  rw [ended, List.append_nil] at split
  obtain ⟨rfl, rfl⟩ := opening.unique ⟨front, flag, delimiter, behind⟩ split
  exact ⟨e, found, by rw [kept]; rfl, by rw [kept]; rfl⟩

theorem Accepts.of_perm {p : Pattern} {q : Quote} {multiline : Bool} {ms ns : List Marker}
    (accepts : Accepts p q multiline ms) (perm : ms.Perm ns) : Accepts p q multiline ns := by
  constructor
  · intro s
    simpa only [IsOpening.of_perm perm] using accepts.whole s
  · intro w f d v opening
    exact accepts.keeps w f d v ((IsOpening.of_perm perm).mpr opening)

theorem lists_flagGroup_iff (suffix : Text) (ms : List Marker) :
    (∃ scope, (flagGroup, scope) ∈ capturesOf suffix ms) ↔ ms ≠ [] := by
  by_cases plain : ms = []
  · simp [capturesOf, plain, flagGroup, delimiterGroup]
  · simp [capturesOf, plain]

/-- Read from its source, the opening of a built rule matches exactly the openings with the markers
spelt, and the flag is a capture where some opening has one. -/
theorem opening_accepts_exactly {c : Config} {quote : QuoteSpelling} {multiline : Bool}
    {spellings : List MarkerSpelling} {r : Rule}
    (built : build c quote multiline spellings = .ok r) :
    ∃ q ms p, quote.resolve = .ok q ∧ MarkerSpelling.Name spellings ms ∧
      Pattern.ofSource? r.opening.source = some p ∧ Accepts p q multiline ms ∧
      ((∃ scope, (flagGroup, scope) ∈ r.captures) ↔
        ∃ w f d v, IsOpening q multiline ms w f d v ∧ f ≠ []) := by
  obtain ⟨q, active, resolved, normal, rfl⟩ := parts_of_buildWith built
  obtain ⟨ms, names, -, perm⟩ := MarkerSpelling.names_of_normalize normal
  refine ⟨q, ms, openingOf q multiline active, resolved, names,
    Pattern.ofSource?_source (formed_opening q multiline active),
    (openingOf_accepts q multiline active).of_perm perm, ?_⟩
  have listed := lists_flagGroup_iff c.scopeSuffix active
  rw [ne_eq, ← List.length_eq_zero_iff, perm.length_eq, List.length_eq_zero_iff] at listed
  refine listed.trans ?_
  constructor
  · intro marked
    exact ⟨_, _, _, _, IsOpening.shortest q multiline ms, by simpa using marked⟩
  · rintro ⟨w, f, d, v, opening, flagged⟩ rfl
    exact flagged opening.flag

theorem opening_accepts_exactly_two_spellings :
    let spellings : List MarkerSpelling := [.symbol (.text "%"), .marker .escape]
    let r := Rule.ofMarkers .standard .single true [.escape, .format]
    build .standard (.given (.text "'")) true spellings = .ok r ∧
      ∃ q ms p, (QuoteSpelling.given (.text "'")).resolve = .ok q ∧
        MarkerSpelling.Name spellings ms ∧ Pattern.ofSource? r.opening.source = some p ∧
        Accepts p q true ms ∧
        ((∃ scope, (flagGroup, scope) ∈ r.captures) ↔
          ∃ w f d v, IsOpening q true ms w f d v ∧ f ≠ []) := by
  intro spellings r
  have built : build .standard (.given (.text "'")) true spellings = .ok r := rfl
  exact ⟨built, opening_accepts_exactly built⟩

end LiteralGrammar.Rule
