import LiteralGrammar.Proofs.Combination.Sublists
import LiteralGrammar.Proofs.Rule.Opening
import LiteralGrammar.Proofs.Text.Runs
import LiteralGrammar.RuleSet
import Mathlib.Data.List.Perm.Subperm

/-!
Which rule of a grammar a text selects: the first whose opening matches. A class of several symbols
accepts each of them alone, so the largest combinations take the openings of all smaller ones, and
of the rules with markers only those with the most markers are ever selected.
-/
namespace LiteralGrammar

def Rule.opens (r : Rule) (t : Text) : Bool := (r.opening.match? t).isSome

def RuleSet.select (s : RuleSet) (t : Text) : Option Rule := s.rules.find? (·.opens t)

namespace Rule

theorem opens_iff (c : Config) (q : Quote) (multiline : Bool) (ms : List Marker) (t : Text) :
    (ofMarkers c q multiline ms).opens t = true ↔
      ∃ w f d rest, (∀ x ∈ w, Text.isBlank x = true) ∧ IsFlag ms f ∧ IsDelimiter q multiline d ∧
        t = w ++ (f ++ (d ++ rest)) := by
  have ways : (ofMarkers c q multiline ms).opens t = true ↔
      ∃ e, e ∈ (openingOf q multiline ms).ways 1 (.ofText t) := by
    rw [opens, Pattern.match?, List.isSome_head?]
    exact ⟨List.exists_mem_of_ne_nil _, fun ⟨_, member⟩ => List.ne_nil_of_mem member⟩
  rw [ways]
  simp only [mem_ways_opening, Pattern.Cursor.ofText]
  constructor
  · intro read
    obtain ⟨e, w, f, d, v, hw, hf, hd, _, split, _⟩ := read
    exact ⟨w, f, d, v ++ e.ahead, hw, hf, hd, split⟩
  · intro read
    obtain ⟨w, f, d, rest, hw, hf, hd, split⟩ := read
    exact ⟨⟨rest, _⟩, w, f, d, [], hw, hf, hd, by simp, split, rfl⟩

/-- A flag of some markers is a flag of any larger combination of several. -/
theorem isFlag_of_subset {ms larger : List Marker} {f : Text} (flag : IsFlag ms f)
    (nonempty : ms ≠ []) (sub : ms ⊆ larger) (several : 2 ≤ larger.length) :
    IsFlag larger f := by
  have symbols : f ≠ [] ∧ ∀ c ∈ f, c ∈ ms.map Marker.symbol := by
    match ms with
    | [] => exact absurd rfl nonempty
    | [m] => subst flag; simp
    | _ :: _ :: _ => exact flag
  match larger with
  | [] | [_] => simp at several
  | _ :: _ :: _ => exact ⟨symbols.1, fun c member => List.map_subset _ sub (symbols.2 c member)⟩

theorem mem_of_isFlag {ms : List Marker} {f : Text} (flag : IsFlag ms f) :
    ∀ c ∈ f, c ∈ ms.map Marker.symbol := by
  match ms with
  | [] => subst flag; simp
  | [m] => subst flag; simp
  | _ :: _ :: _ => exact flag.2

end Rule

namespace Marker

theorem symbol_injective {a b : Marker} (same : a.symbol = b.symbol) : a = b := by
  cases a <;> cases b <;> first | rfl | exact absurd same (by decide)

theorem symbol_not_blank (m : Marker) : Text.isBlank m.symbol = false := by
  cases m <;> decide

theorem map_symbol_subset (ms : List Marker) : ms.map symbol ⊆ canonical.map symbol :=
  List.map_subset _ fun m _ => mem_canonical m

end Marker

theorem Quote.stops_replicate (q : Quote) {n : Nat} (run : 0 < n) (rest : Text) :
    Text.Stops (· ∈ Marker.canonical.map Marker.symbol) (List.replicate n q.char ++ rest) := by
  obtain ⟨n, rfl⟩ := Nat.exists_eq_succ_of_ne_zero (Nat.pos_iff_ne_zero.mp run)
  intro c head
  simp only [List.replicate_succ, List.cons_append, List.head?_cons, Option.mem_def,
    Option.some.injEq] at head
  subst head
  cases q <;> decide

theorem Rule.isFlag_iff_subset {ms f : List Marker} (nonempty : f ≠ []) (distinct : f.Nodup) :
    IsFlag ms (f.map Marker.symbol) ↔ f ⊆ ms := by
  constructor
  · intro flag m member
    obtain ⟨m', inside, same⟩ := List.mem_map.mp
      (mem_of_isFlag flag m.symbol (List.mem_map_of_mem member))
    exact Marker.symbol_injective same ▸ inside
  · intro sub
    match ms with
    | [] => exact absurd (List.subset_nil.mp sub) nonempty
    | [m] =>
      obtain ⟨m', f, rfl⟩ := List.exists_cons_of_ne_nil nonempty
      obtain rfl : m' = m := List.mem_singleton.mp (sub (List.mem_cons_self ..))
      have alone : f = [] := by
        refine List.eq_nil_iff_forall_not_mem.mpr fun x member => ?_
        obtain rfl := List.mem_singleton.mp (sub (List.mem_cons_of_mem _ member))
        exact (List.nodup_cons.mp distinct).1 member
      subst alone
      rfl
    | _ :: _ :: _ =>
      exact ⟨fun none => nonempty (List.map_eq_nil_iff.mp none), List.map_subset _ sub⟩

namespace RuleSet

theorem mem_ofConfig (c : Config) (r : Rule) :
    r ∈ (ofConfig c).rules ↔ ∃ ms q multiline, ms.Sublist Marker.canonical ∧
      ms.length ≤ c.maxMarkers ∧ r = Rule.ofMarkers c q multiline ms := by
  simp only [ofConfig, List.mem_flatMap, Combination.mem_ofMarkers, List.mem_map]
  constructor
  · intro read
    obtain ⟨ms, ⟨sub, few⟩, ⟨q, multiline⟩, _, rfl⟩ := read
    exact ⟨ms, q, multiline, sub, few, rfl⟩
  · intro read
    obtain ⟨ms, q, multiline, sub, few, rfl⟩ := read
    refine ⟨ms, ⟨sub, few⟩, (q, multiline), ?_, rfl⟩
    cases q <;> cases multiline <;> decide

theorem ofConfig_sorted (c : Config) :
    (ofConfig c).rules.Pairwise fun a b => b.markers.length ≤ a.markers.length := by
  rw [ofConfig, List.pairwise_flatMap]
  constructor
  · intro ms _
    rw [List.pairwise_map]
    exact List.pairwise_of_forall fun _ _ => Nat.le_refl _
  · refine (Combination.longestFirst_sorted _).imp fun shorter => ?_
    intro a inA b inB
    obtain ⟨_, _, rfl⟩ := List.mem_map.mp inA
    obtain ⟨_, _, rfl⟩ := List.mem_map.mp inB
    exact shorter

theorem length_le_of_select {c : Config} {t : Text} {r other : Rule}
    (selected : (ofConfig c).select t = some r) (member : other ∈ (ofConfig c).rules)
    (opens : other.opens t = true) : other.markers.length ≤ r.markers.length := by
  obtain ⟨_, before, after, split, none⟩ := List.find?_eq_some_iff_append.mp selected
  have sorted := ofConfig_sorted c
  rw [split] at member sorted
  rcases List.mem_append.mp member with earlier | later
  · exact absurd opens (by simpa using none other earlier)
  · rcases List.mem_cons.mp later with rfl | later
    · exact Nat.le_refl _
    · exact (List.pairwise_cons.mp (List.pairwise_append.mp sorted).2.1).1 other later

theorem select_mem {c : Config} {t : Text} {r : Rule} (selected : (ofConfig c).select t = some r) :
    ∃ ms q multiline, ms.Sublist Marker.canonical ∧ ms.length ≤ c.maxMarkers ∧
      r = Rule.ofMarkers c q multiline ms :=
  (mem_ofConfig c r).mp (List.mem_of_find?_eq_some selected)

theorem opens_of_select {c : Config} {t : Text} {r : Rule}
    (selected : (ofConfig c).select t = some r) : r.opens t = true := by
  rw [select] at selected
  exact List.find?_some (p := fun rule : Rule => rule.opens t) selected

/-- On every text: the selected rule has no markers, or as many as the grammar combines. -/
theorem plain_or_largest_of_select {c : Config} {t : Text} {r : Rule}
    (selected : (ofConfig c).select t = some r) :
    r.markers = [] ∨ r.markers.length = c.maxMarkers := by
  obtain ⟨ms, q, multiline, sub, few, rfl⟩ := select_mem selected
  by_cases plain : ms = []
  · exact Or.inl plain
  right
  have opens := opens_of_select selected
  obtain ⟨w, f, d, rest, hw, hf, hd, split⟩ := (Rule.opens_iff c q multiline ms t).mp opens
  obtain ⟨larger, below, above, length⟩ := Combination.exists_sublist_between sub few
    c.maxMarkers_le
  change ms.length = c.maxMarkers
  by_cases several : 2 ≤ c.maxMarkers
  · have flag := Rule.isFlag_of_subset hf plain below.subset (by omega)
    have larger_opens := (Rule.opens_iff c q multiline larger t).mpr
      ⟨w, f, d, rest, hw, flag, hd, split⟩
    have most := length_le_of_select selected
      ((mem_ofConfig c _).mpr ⟨larger, q, multiline, above, by omega, rfl⟩) larger_opens
    exact Nat.le_antisymm few (length ▸ most)
  · have some := List.length_pos_iff.mpr plain
    omega

def flagged (f : List Marker) (q : Quote) (n : Nat) : Text :=
  f.map Marker.symbol ++ List.replicate n q.char

theorem opens_flagged {c : Config} {q : Quote} {ms f : List Marker} {n : Nat}
    (flag : Rule.IsFlag ms (f.map Marker.symbol)) (run : n = 1 ∨ 3 ≤ n) :
    (Rule.ofMarkers c q (decide (3 ≤ n)) ms).opens (flagged f q n) = true := by
  have delimiter : Rule.IsDelimiter q (decide (3 ≤ n)) (List.replicate n q.char) := by
    refine ⟨n, ?_, rfl⟩
    rcases run with rfl | long
    · decide
    · simp only [decide_eq_true_eq, long, ↓reduceIte]
  refine (Rule.opens_iff ..).mpr ⟨[], _, _, [], by simp, flag, delimiter, ?_⟩
  simp [flagged]

/-- Whatever matches reads exactly the symbols as its flag. -/
theorem isFlag_of_opens {c : Config} {q q' : Quote} {multiline : Bool} {ms f : List Marker}
    {n : Nat} (nonempty : f ≠ []) (run : 0 < n)
    (opens : (Rule.ofMarkers c q' multiline ms).opens (flagged f q n) = true) :
    Rule.IsFlag ms (f.map Marker.symbol) := by
  obtain ⟨w, g, d, rest, hw, hg, ⟨k, long, rfl⟩, split⟩ := (Rule.opens_iff ..).mp opens
  obtain ⟨m, f, rfl⟩ := List.exists_cons_of_ne_nil nonempty
  have no_blanks : w = [] := by
    cases w with
    | nil => rfl
    | cons b w =>
      obtain ⟨rfl, _⟩ := List.cons.inj split
      exact absurd (hw m.symbol (List.mem_cons_self ..)) (by simp [Marker.symbol_not_blank])
  have some_quote : 0 < k := by split at long <;> omega
  rw [no_blanks, List.nil_append] at split
  have in_f : ∀ x ∈ (m :: f).map Marker.symbol, x ∈ Marker.canonical.map Marker.symbol :=
    fun _ member => Marker.map_symbol_subset (m :: f) member
  have in_g : ∀ x ∈ g, x ∈ Marker.canonical.map Marker.symbol :=
    fun x member => Marker.map_symbol_subset ms (Rule.mem_of_isFlag hg x member)
  have stops := Quote.stops_replicate q run []
  rw [List.append_nil] at stops
  have same := Text.run_unique in_f in_g stops (Quote.stops_replicate q' some_quote rest) split
  exact same.1 ▸ hg

theorem select_flagged (c : Config) (q : Quote) (f : List Marker) (n : Nat) (nonempty : f ≠ [])
    (distinct : f.Nodup) (few : f.length ≤ c.maxMarkers) (run : n = 1 ∨ 3 ≤ n) :
    ∃ r, (ofConfig c).select (flagged f q n) = some r ∧ f ⊆ r.markers ∧
      r.markers.Sublist Marker.canonical ∧ r.markers.length = c.maxMarkers := by
  let own := Marker.canonical.filter (· ∈ f)
  have own_sub : own ⊆ f := fun m member => by simpa using (List.mem_filter.mp member).2
  have sub_own : f ⊆ own := fun m member =>
    List.mem_filter.mpr ⟨by cases m <;> decide, by simpa using member⟩
  have own_distinct : own.Nodup := Marker.canonical_nodup.sublist List.filter_sublist
  have own_few : own.length ≤ c.maxMarkers :=
    Nat.le_trans (own_distinct.length_le_of_subset own_sub) few
  have matching : ((ofConfig c).select (flagged f q n)).isSome = true := by
    rw [select, List.find?_isSome]
    refine ⟨_, (mem_ofConfig c _).mpr ⟨own, q, decide (3 ≤ n), List.filter_sublist, own_few, rfl⟩, ?_⟩
    exact opens_flagged ((Rule.isFlag_iff_subset nonempty distinct).mpr sub_own) run
  obtain ⟨r, selected⟩ := Option.isSome_iff_exists.mp matching
  obtain ⟨ms, q', multiline, sub, _, rfl⟩ := select_mem selected
  have flag := isFlag_of_opens nonempty (by omega) (opens_of_select selected)
  have within : f ⊆ ms := (Rule.isFlag_iff_subset nonempty distinct).mp flag
  refine ⟨_, selected, within, sub, ?_⟩
  rcases plain_or_largest_of_select selected with plain | largest
  · exact absurd (List.subset_nil.mp (plain ▸ within)) nonempty
  · exact largest

/-- The selected rule has exactly the markers of the text if and only if the text has as many
markers as the grammar combines. -/
theorem select_exact_iff (c : Config) (q : Quote) (f : List Marker) (n : Nat) (nonempty : f ≠ [])
    (distinct : f.Nodup) (few : f.length ≤ c.maxMarkers) (run : n = 1 ∨ 3 ≤ n) :
    ∃ r, (ofConfig c).select (flagged f q n) = some r ∧ f ⊆ r.markers ∧
      r.markers.length = c.maxMarkers ∧
      ((∀ m, m ∈ r.markers ↔ m ∈ f) ↔ f.length = c.maxMarkers) := by
  obtain ⟨r, selected, within, sub, length⟩ := select_flagged c q f n nonempty distinct few run
  refine ⟨r, selected, within, length, ?_⟩
  constructor
  · intro same
    have back : r.markers ⊆ f := fun m => (same m).mp
    have := (Marker.canonical_nodup.sublist sub).length_le_of_subset back
    omega
  · intro full m
    have perm := (List.subperm_of_subset distinct within).perm_of_length_le (by omega)
    exact perm.mem_iff.symm

theorem select_exact_iff_three_symbols :
    ∃ r, (ofConfig Config.standard).select (flagged [.template, .escape, .format] .double 5) =
        some r ∧ [.template, .escape, .format] ⊆ r.markers ∧
      r.markers.length = Config.standard.maxMarkers ∧
      ((∀ m, m ∈ r.markers ↔ m ∈ [.template, .escape, .format]) ↔
        [Marker.template, .escape, .format].length = Config.standard.maxMarkers) :=
  select_exact_iff Config.standard .double [.template, .escape, .format] 5 (by decide) (by decide)
    (by decide) (by decide)

/-- A lone backslash selects the rule of all four markers, not its own. -/
theorem lone_backslash_selects_all :
    ∃ r, (ofConfig Config.standard).select "\\'" = some r ∧ r.markers = Marker.canonical ∧
      ¬∀ m, m ∈ r.markers ↔ m ∈ [Marker.escape] := by
  obtain ⟨r, selected, _, sub, length⟩ :=
    select_flagged Config.standard .single [.escape] 1 (by decide) (by decide) (by decide)
      (by decide)
  have all : r.markers = Marker.canonical := sub.eq_of_length length
  refine ⟨r, selected, all, fun same => ?_⟩
  have format_too := (same .format).mp (all ▸ by decide)
  exact absurd format_too (by decide)

end RuleSet

end LiteralGrammar
