import LiteralGrammar.Proofs.Rule.Accepting
import LiteralGrammar.Proofs.Text.MaximalRun

/-!
Where a literal ends. Once the delimiter of the opening is known, the closing pattern of a rule
matches behind blanks where the delimiter stands and no quote follows: at the end of a run of quotes
that is long enough. The leftmost match is at the first such run, since the blanks in front of a
match hold no quote.
-/
namespace LiteralGrammar.Rule

open Pattern (Cursor)
open Text (Run)

theorem formed_closing (q : Quote) : Pattern.Formed .whole (closingOf q) := by
  have quotes : Pattern.Formed .atom (.notAhead (.plus (.char q.char))) :=
    .notAhead (.single (.filled (.last (.plus (.char _)))))
  have reference : Pattern.Formed .atom (.group (.sameAs delimiterGroup)) :=
    .group (.reference (by decide) (by decide))
  have run := Pattern.Formed.seq (.once reference) (.last (.once quotes))
  exact .single (.filled (.seq (.star .blank) (.last (.once (.group (.single (.filled run)))))))

theorem mem_ways_closing (q : Quote) {d : Text} {s : Cursor}
    (opened : s.groups.lookup delimiterGroup = some d) (e : Cursor) :
    e ∈ (closingOf q).ways 1 s ↔ ∃ w, (∀ c ∈ w, Text.isBlank c = true) ∧
      s.ahead = w ++ (d ++ e.ahead) ∧ Text.Stops (· = q.char) e.ahead ∧
      e.groups = (1, d) :: (2, d) :: s.groups := by
  have held : ∀ {m : Cursor}, m.groups = s.groups → m.groups.lookup delimiterGroup = some d :=
    fun same => same ▸ opened
  simp only [closingOf, Pattern.inOrder, Pattern.mem_ways_seq, reads_blanks _ _ _]
  change (∃ m, _ ∧ e ∈ Pattern.ways (.group _) 1 m) ↔ _
  simp only [Pattern.mem_ways_capture _ 1, Pattern.mem_ways_seq, Pattern.mem_ways_notAhead_run]
  constructor
  · rintro ⟨m, ⟨w, blank, front, kept⟩, _, ⟨x, read, rfl, stops⟩, rfl⟩
    obtain ⟨split, same⟩ := (Pattern.mem_ways_group_sameAs (held kept) _ _).mp read
    rw [Pattern.capture_of_split split]
    exact ⟨w, blank, by rw [front, split], stops, by rw [same, kept]⟩
  · rintro ⟨w, blank, split, stops, kept⟩
    let m : Cursor := ⟨d ++ e.ahead, s.groups⟩
    let x : Cursor := ⟨e.ahead, (2, d) :: s.groups⟩
    have read := (Pattern.mem_ways_group_sameAs (s := m) (held rfl) 2 x).mpr ⟨rfl, rfl⟩
    refine ⟨m, ⟨w, blank, split, rfl⟩, x, ⟨x, read, rfl, stops⟩, ?_⟩
    rw [Pattern.capture_of_split (s := m) (m := x) rfl]
    exact Cursor.ext rfl kept

section

variable {q : Quote} {t : Text} {k : Nat}

/-- A place where the closing matches lies in a run of quotes, and behind the match the run is
over. -/
theorem exists_run_of_way {front w rest : Text} (positive : 0 < k)
    (split : t = front ++ (w ++ (List.replicate k q.char ++ rest)))
    (stops : Text.Stops (· = q.char) rest) :
    ∃ run : Run q.char t, k ≤ run.length ∧ run.rest = rest ∧
      run.front.length + run.length = front.length + w.length + k := by
  obtain ⟨before, n, same, begins⟩ := Text.exists_last_run q.char (front ++ w)
  have whole : t = before ++ (List.replicate (n + k) q.char ++ rest) := by
    rw [split, ← List.append_assoc, same, ← List.replicate_append_replicate]
    simp only [List.append_assoc]
  have lengths := congrArg List.length same
  simp only [List.length_append, List.length_replicate] at lengths
  exact ⟨⟨before, n + k, rest, whole, by omega, begins, stops⟩, by simp, rfl, by simp only; omega⟩

theorem split_of_run (run : Run q.char t) (long : k ≤ run.length) :
    t = (run.front ++ List.replicate (run.length - k) q.char) ++
      (List.replicate k q.char ++ run.rest) := by
  have cut : List.replicate run.length q.char =
      List.replicate (run.length - k) q.char ++ List.replicate k q.char := by
    rw [List.replicate_append_replicate, Nat.sub_add_cancel long]
  have whole := run.whole
  rw [cut, List.append_assoc] at whole
  rw [List.append_assoc]
  exact whole

/-- The closing matches the last quotes of a run. -/
theorem way_of_run (run : Run q.char t) :
    ∃ e, e ∈ (closingOf q).ways 1
      ⟨List.replicate k q.char ++ run.rest, [(delimiterGroup, List.replicate k q.char)]⟩ :=
  ⟨⟨run.rest, _⟩, (mem_ways_closing q rfl _).mpr ⟨[], by simp, rfl, run.ends, rfl⟩⟩

end

/-- The closing is found where a run is long enough, and its leftmost match ends with the first such
run and keeps its last quotes. -/
structure Closes (p : Pattern) (q : Quote) (d t : Text) : Prop where
  found_iff : (p.search? [(delimiterGroup, d)] t).isSome = true ↔
    ∃ run : Run q.char t, d.length ≤ run.length
  first : ∀ run : Run q.char t, d.length ≤ run.length →
    (∀ other : Run q.char t, d.length ≤ other.length → run.front.length ≤ other.front.length) →
    ∃ skipped w e, p.search? [(delimiterGroup, d)] t = some (skipped, e) ∧
      (∀ c ∈ w, Text.isBlank c = true) ∧ t = skipped ++ (w ++ (d ++ e.ahead)) ∧
      e.ahead = run.rest ∧ e.groups.lookup 1 = some d

theorem closingOf_closes (q : Quote) {k : Nat} (positive : 0 < k) (t : Text) :
    Closes (closingOf q) q (List.replicate k q.char) t := by
  constructor
  · rw [Pattern.isSome_search?_iff, List.length_replicate]
    constructor
    · rintro ⟨front, back, e, split, member⟩
      obtain ⟨w, -, same, stops, -⟩ := (mem_ways_closing q rfl e).mp member
      rw [show back = _ from same] at split
      obtain ⟨run, long, -⟩ := exists_run_of_way positive split stops
      exact ⟨run, long⟩
    · rintro ⟨run, long⟩
      obtain ⟨e, member⟩ := way_of_run run
      exact ⟨_, _, e, split_of_run run long, member⟩
  · intro run long first
    rw [List.length_replicate] at long first
    obtain ⟨_, here⟩ := way_of_run run
    obtain ⟨skipped, e, searched, within⟩ :=
      Pattern.search?_leftmost (split_of_run run long) here
    obtain ⟨back, split, member⟩ := Pattern.way_of_search? searched
    obtain ⟨w, blank, same, stops, captured⟩ := (mem_ways_closing q rfl e).mp member
    rw [show back = _ from same] at split
    obtain ⟨other, other_long, rest_same, lengths⟩ := exists_run_of_way positive split stops
    have not_later : ¬run.front.length < other.front.length := by
      -- Else a quote of the run would stand among the blanks of the match.
      intro later
      have apart := Text.Run.ends_before later
      rw [List.length_append, List.length_replicate] at within
      have quote := run.getElem?_inside (i := run.front.length + (run.length - k)) (by omega)
        (by omega)
      rw [congrArg (·[_]?) split] at quote
      have inside := Text.mem_of_getElem?_between quote within (by omega)
      exact absurd (blank q.char inside) (by simp [q.char_not_blank])
    have start := Nat.le_antisymm (first other other_long) (Nat.le_of_not_lt not_later)
    refine ⟨skipped, w, e, searched, blank, split, ?_, by rw [captured, List.lookup_cons_self]⟩
    exact rest_same.symm.trans (Text.Run.rest_unique start.symm)

/-- Two quotes do not close three; of four the last three do. -/
example : ((closingOf .double).search? [(delimiterGroup, "\"\"\"")] "a\"\"b \"\"\"\"c").map
    (fun found => (found.1, found.2.ahead)) = some (("a\"\"b \"" : Text), ("c" : Text)) := by
  decide

theorem captured_delimiter_iff (q : Quote) (multiline : Bool) (ms : List Marker) (d : Text) :
    (∃ s e, (openingOf q multiline ms).match? s = some e ∧
      e.groups.lookup delimiterGroup = some d) ↔ IsDelimiter q multiline d := by
  constructor
  · rintro ⟨s, e, matched, captured⟩
    obtain ⟨w, f, d', v, -, -, delimits, -, -, kept⟩ :=
      (mem_ways_opening q multiline ms _ e).mp (List.mem_of_head? matched)
    rw [kept, List.lookup_cons_self] at captured
    cases captured
    exact delimits
  · intro delimits
    have shortest := IsOpening.shortest q multiline ms
    have opening : IsOpening q multiline ms [] _ d [] := { shortest with delimiter := delimits }
    obtain ⟨n, positive, rfl⟩ := opening.run
    have stops : Text.Stops (· ∈ ms.map Marker.symbol) (List.replicate n q.char ++ []) :=
      fun c head inside => q.stops_replicate positive [] c head (Marker.map_symbol_subset ms inside)
    exact ⟨_, _, match_opening opening.front opening.flag delimits
      (Literal.visible opening.symbols positive) stops (by simp [Text.Stops]), rfl⟩

/-- Read from their sources, the opening of a built rule captures each delimiter of its quote, and
with any of them the closing finds the end of the first run of quotes that is long enough. -/
theorem closing_ends_first_run {c : Config} {quote : QuoteSpelling} {multiline : Bool}
    {spellings : List MarkerSpelling} {r : Rule}
    (built : build c quote multiline spellings = .ok r) :
    ∃ o p, Pattern.ofSource? r.opening.source = some o ∧
      Pattern.ofSource? r.closing.source = some p ∧
      ∀ d, ((∃ s e, o.match? s = some e ∧ e.groups.lookup delimiterGroup = some d) ↔
          IsDelimiter r.quote r.multiline d) ∧
        (IsDelimiter r.quote r.multiline d → ∀ t, Closes p r.quote d t) := by
  obtain ⟨q, ms, -, -, rfl⟩ := parts_of_buildWith built
  refine ⟨openingOf q multiline ms, closingOf q, Pattern.ofSource?_source (formed_opening ..),
    Pattern.ofSource?_source (formed_closing q), fun d => ⟨captured_delimiter_iff .., ?_⟩⟩
  rintro ⟨n, long, rfl⟩ t
  exact closingOf_closes q (by split at long <;> omega) t

theorem closing_ends_first_run_double :
    let spellings : List MarkerSpelling := [.symbol (.text "$")]
    let r := Rule.ofMarkers .standard .double true [.interpolated]
    build .standard (.quote .double) true spellings = .ok r ∧
      ∃ o p, Pattern.ofSource? r.opening.source = some o ∧
        Pattern.ofSource? r.closing.source = some p ∧
        ∀ d, ((∃ s e, o.match? s = some e ∧ e.groups.lookup delimiterGroup = some d) ↔
            IsDelimiter r.quote r.multiline d) ∧
          (IsDelimiter r.quote r.multiline d → ∀ t, Closes p r.quote d t) := by
  intro spellings r
  have built : build .standard (.quote .double) true spellings = .ok r := rfl
  exact ⟨built, closing_ends_first_run built⟩

end LiteralGrammar.Rule
