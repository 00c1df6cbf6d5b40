import LiteralGrammar.Proofs.RuleSet.Selection
import LiteralGrammar.Proofs.Rule.Captures

/-!
Which delimiter the selected rule takes. Behind blanks and symbols a text can be cut in one way
only, so the rules that match differ in the part of the run of quotes that they take; among rules
with the same markers the one for three quotes or more comes first, and takes the whole run.
-/
namespace LiteralGrammar

theorem Quote.char_injective {a b : Quote} (same : a.char = b.char) : a = b := by
  cases a <;> cases b <;> first | rfl | exact absurd same (by decide)

theorem Quote.char_not_blank (q : Quote) : Text.isBlank q.char = false := by
  cases q <;> decide

theorem Text.le_of_replicate_append {a : Char} {n k : Nat} {rest rest' : Text}
    (ends : Stops (· = a) rest)
    (same : List.replicate n a ++ rest = List.replicate k a ++ rest') : k ≤ n := by
  by_contra more
  obtain ⟨j, rfl⟩ := Nat.exists_eq_add_of_lt (Nat.lt_of_not_le more)
  rw [Nat.add_assoc, ← List.replicate_append_replicate, List.append_assoc,
    List.append_cancel_left_eq] at same
  exact ends a (by simp [same, List.replicate_succ]) rfl

/-- A literal behind blanks: symbols of markers, a run of quotes, and what follows it. -/
structure Literal where
  front : Text
  flag : Text
  quote : Quote
  run : Nat
  rest : Text
  blank : ∀ c ∈ front, Text.isBlank c = true
  symbols : ∀ c ∈ flag, c ∈ Marker.canonical.map Marker.symbol
  quoted : 0 < run
  ends : Text.Stops (· = quote.char) rest

namespace Literal

def text (l : Literal) : Text :=
  l.front ++ (l.flag ++ (List.replicate l.run l.quote.char ++ l.rest))

def delimiter (l : Literal) (multiline : Bool) : Text :=
  List.replicate (if multiline then l.run else 1) l.quote.char

theorem visible {f t : Text} {q : Quote} {n : Nat}
    (symbols : ∀ c ∈ f, c ∈ Marker.canonical.map Marker.symbol) (run : 0 < n) :
    Text.Stops (Text.isBlank ·) (f ++ (List.replicate n q.char ++ t)) := by
  intro c head
  obtain ⟨n, rfl⟩ := Nat.exists_eq_succ_of_ne_zero (Nat.pos_iff_ne_zero.mp run)
  cases f with
  | nil =>
    obtain rfl : q.char = c := by simpa [List.replicate_succ] using head
    simp [Quote.char_not_blank]
  | cons d f =>
    obtain rfl : d = c := by simpa using head
    obtain ⟨m, _, rfl⟩ := List.mem_map.mp (symbols d (by simp))
    simp [Marker.symbol_not_blank]

theorem cut_unique (l : Literal) {w f rest : Text} {q : Quote} {k : Nat}
    (blank : ∀ c ∈ w, Text.isBlank c = true)
    (symbols : ∀ c ∈ f, c ∈ Marker.canonical.map Marker.symbol) (quoted : 0 < k)
    (same : l.text = w ++ (f ++ (List.replicate k q.char ++ rest))) :
    w = l.front ∧ f = l.flag ∧ q = l.quote ∧ k ≤ l.run := by
  rw [text] at same
  obtain ⟨rfl, flagged⟩ := Text.run_unique l.blank blank (visible l.symbols l.quoted)
    (visible symbols quoted) same
  obtain ⟨rfl, delimited⟩ := Text.run_unique l.symbols symbols
    (l.quote.stops_replicate l.quoted _) (q.stops_replicate quoted _) flagged
  have heads : l.quote.char = q.char := by
    have first := congrArg List.head? delimited
    simpa [List.head?_append, List.head?_replicate, Nat.pos_iff_ne_zero.mp l.quoted,
      Nat.pos_iff_ne_zero.mp quoted] using first
  obtain rfl := Quote.char_injective heads
  exact ⟨rfl, rfl, rfl, Text.le_of_replicate_append l.ends delimited⟩

theorem exists_delimiter (l : Literal) {multiline : Bool} (tripled : multiline = true → 3 ≤ l.run) :
    ∃ behind, l.text = l.front ++ (l.flag ++ (l.delimiter multiline ++ behind)) ∧
      Rule.IsDelimiter l.quote multiline (l.delimiter multiline) ∧
      (multiline = true → Text.Stops (· = l.quote.char) behind) := by
  cases multiline with
  | true => exact ⟨l.rest, rfl, ⟨l.run, tripled rfl, rfl⟩, fun _ => l.ends⟩
  | false =>
    obtain ⟨n, more⟩ := Nat.exists_eq_succ_of_ne_zero (Nat.pos_iff_ne_zero.mp l.quoted)
    refine ⟨List.replicate n l.quote.char ++ l.rest, ?_, ⟨1, rfl, rfl⟩, by simp⟩
    simp [text, delimiter, more, List.replicate_succ]

end Literal

namespace Rule

/-- A rule opens a literal of its quote whose symbols are a flag of its markers; a rule for three
quotes or more needs as many. -/
theorem opens_literal_iff (c : Config) (q : Quote) (multiline : Bool) (ms : List Marker)
    (l : Literal) :
    (ofMarkers c q multiline ms).opens l.text = true ↔
      q = l.quote ∧ IsFlag ms l.flag ∧ (multiline = true → 3 ≤ l.run) := by
  rw [opens_iff]
  constructor
  · intro read
    obtain ⟨w, f, d, rest, blank, isFlag, ⟨k, long, rfl⟩, same⟩ := read
    have symbols : ∀ x ∈ f, x ∈ Marker.canonical.map Marker.symbol :=
      fun x member => Marker.map_symbol_subset ms (mem_of_isFlag isFlag x member)
    have quoted : 0 < k := by split at long <;> omega
    obtain ⟨rfl, rfl, rfl, within⟩ := l.cut_unique blank symbols quoted same
    refine ⟨rfl, isFlag, fun tripled => ?_⟩
    rw [if_pos tripled] at long
    exact Nat.le_trans long within
  · intro read
    obtain ⟨rfl, isFlag, tripled⟩ := read
    obtain ⟨behind, same, delimits, _⟩ := l.exists_delimiter tripled
    exact ⟨_, _, _, behind, l.blank, isFlag, delimits, same⟩

theorem match_literal (multiline : Bool) {ms : List Marker} {l : Literal}
    (isFlag : IsFlag ms l.flag) (tripled : multiline = true → 3 ≤ l.run) :
    ∃ rest, (openingOf l.quote multiline ms).match? l.text =
      some ⟨rest, [(delimiterGroup, l.delimiter multiline), (flagGroup, l.flag)]⟩ := by
  obtain ⟨behind, same, delimits, ends⟩ := l.exists_delimiter tripled
  have run : 0 < if multiline then l.run else 1 := by split <;> simp [l.quoted]
  have stops : Text.Stops (· ∈ ms.map Marker.symbol) (l.delimiter multiline ++ behind) :=
    fun x head inside => l.quote.stops_replicate run behind x head
      (Marker.map_symbol_subset ms inside)
  rw [same]
  exact ⟨_, match_opening l.blank isFlag delimits (Literal.visible l.symbols run) stops ends⟩

theorem mem_of_symbol_mem {ms : List Marker} {f : Text} (isFlag : IsFlag ms f) {m : Marker}
    (inside : m.symbol ∈ f) : m ∈ ms := by
  obtain ⟨other, member, same⟩ := List.mem_map.mp (mem_of_isFlag isFlag m.symbol inside)
  exact Marker.symbol_injective same ▸ member

theorem nil_of_isFlag_nil {ms : List Marker} (isFlag : IsFlag ms []) : ms = [] := by
  match ms with
  | [] => rfl
  | [_] => exact absurd isFlag (List.cons_ne_nil _ _).symm
  | _ :: _ :: _ => exact absurd rfl isFlag.1

end Rule

namespace RuleSet

theorem select_variant {c : Config} {t : Text} {r : Rule}
    (selected : (ofConfig c).select t = some r) :
    ∃ ms, (variants.map fun (q, multiline) => Rule.ofMarkers c q multiline ms).find? (·.opens t) =
      some r := by
  rw [select, ofConfig, List.find?_flatMap] at selected
  obtain ⟨ms, _, found⟩ := List.exists_of_findSome?_eq_some selected
  exact ⟨ms, found⟩

theorem select_literal {c : Config} {l : Literal} {r : Rule}
    (selected : (ofConfig c).select l.text = some r) :
    ∃ ms, r = Rule.ofMarkers c l.quote (decide (3 ≤ l.run)) ms ∧ Rule.IsFlag ms l.flag := by
  obtain ⟨ms, found⟩ := select_variant selected
  obtain ⟨⟨q, multiline⟩, _, rfl⟩ := List.mem_map.mp (List.mem_of_find?_eq_some found)
  obtain ⟨_, isFlag, _⟩ :=
    (Rule.opens_literal_iff c q multiline ms l).mp (opens_of_select selected)
  have known : ∀ q multiline, (Rule.ofMarkers c q multiline ms).opens l.text =
      decide (q = l.quote ∧ (multiline = true → 3 ≤ l.run)) := by
    intro q multiline
    rw [Bool.eq_iff_iff, Rule.opens_literal_iff, decide_eq_true_eq]
    simp only [isFlag, true_and]
  refine ⟨ms, ?_, isFlag⟩
  simp only [variants, List.map_cons, List.map_nil, List.find?_cons, known] at found
  -- Of the four variants, those with the other quote fail, and then the order decides.
  by_cases long : 3 ≤ l.run <;> cases quote : l.quote <;> simp [quote, long] at found ⊢ <;>
    exact found.symm

/-- If a rule matches a literal, the first that does has its quote, takes three quotes or more
exactly where there are as many and then all of them, and has the markers of all its symbols. -/
theorem select_delimiter (c : Config) (l : Literal)
    (matched : ∃ r ∈ (ofConfig c).rules, r.opens l.text = true) :
    ∃ r e, (ofConfig c).select l.text = some r ∧ r.opening.match? l.text = some e ∧
      r.quote = l.quote ∧ (r.multiline = true ↔ 3 ≤ l.run) ∧
      e.groups.lookup Rule.flagGroup = some l.flag ∧
      e.groups.lookup Rule.delimiterGroup =
        some (List.replicate (if 3 ≤ l.run then l.run else 1) l.quote.char) ∧
      (∀ m : Marker, m.symbol ∈ l.flag → m ∈ r.markers) ∧ (l.flag = [] → r.markers = []) := by
  have some_rule : ((ofConfig c).select l.text).isSome = true := by
    rw [select, List.find?_isSome]
    exact matched
  obtain ⟨r, selected⟩ := Option.isSome_iff_exists.mp some_rule
  obtain ⟨ms, rfl, isFlag⟩ := select_literal selected
  obtain ⟨rest, found⟩ := Rule.match_literal (decide (3 ≤ l.run)) isFlag of_decide_eq_true
  refine ⟨_, _, selected, found, rfl, decide_eq_true_iff, rfl, ?_, ?_, ?_⟩
  · rw [List.lookup_cons_self, Literal.delimiter]
    simp only [decide_eq_true_eq]
  · exact fun m inside => Rule.mem_of_symbol_mem isFlag inside
  · intro plain
    rw [plain] at isFlag
    exact Rule.nil_of_isFlag_nil isFlag

theorem select_delimiter_repeated_symbol :
    let l : Literal :=
      { front := " \t", flag := "%\\%", quote := .double, run := 5, rest := "x\""
        blank := List.all_eq_true.mp (by decide)
        symbols := by simp [Marker.canonical, Marker.symbol]
        quoted := by decide
        ends := by simp [Text.Stops, Quote.char] }
    (∃ r ∈ (ofConfig .standard).rules, r.opens l.text = true) ∧
      ∃ r e, (ofConfig .standard).select l.text = some r ∧ r.opening.match? l.text = some e ∧
        r.quote = l.quote ∧ (r.multiline = true ↔ 3 ≤ l.run) ∧
        e.groups.lookup Rule.flagGroup = some l.flag ∧
        e.groups.lookup Rule.delimiterGroup =
          some (List.replicate (if 3 ≤ l.run then l.run else 1) l.quote.char) ∧
        (∀ m : Marker, m.symbol ∈ l.flag → m ∈ r.markers) ∧ (l.flag = [] → r.markers = []) := by
  intro l
  have isFlag : Rule.IsFlag Marker.canonical l.flag := ⟨by decide, l.symbols⟩
  have matched : ∃ r ∈ (ofConfig .standard).rules, r.opens l.text = true :=
    ⟨Rule.ofMarkers .standard .double true Marker.canonical,
      (mem_ofConfig ..).mpr ⟨_, _, _, List.Sublist.refl _, by decide, rfl⟩,
      (Rule.opens_literal_iff ..).mpr ⟨rfl, isFlag, fun _ => by decide⟩⟩
  exact ⟨matched, select_delimiter .standard l matched⟩

end RuleSet

end LiteralGrammar
