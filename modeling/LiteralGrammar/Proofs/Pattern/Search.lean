import LiteralGrammar.Proofs.Pattern.Matching
import LiteralGrammar.Proofs.Text.Runs

/-!
Matches of a whole text, and leftmost matches inside one. A search may start with groups that hold
something already: what a reference to them stands for.
-/
namespace LiteralGrammar.Pattern

def fullMatch? (p : Pattern) (t : Text) : Option Cursor :=
  (p.ways 1 (.ofText t)).find? (·.ahead = [])

def matchHere? (p : Pattern) (held : List (Nat × Text)) (t : Text) : Option Cursor :=
  (p.ways 1 ⟨t, held⟩).head?

def search? (p : Pattern) (held : List (Nat × Text)) : Text → Option (Text × Cursor)
  | [] => (p.matchHere? held []).map ([], ·)
  | c :: rest =>
    match p.matchHere? held (c :: rest) with
    | some e => some ([], e)
    | none => (p.search? held rest).map fun (skipped, e) => (c :: skipped, e)

theorem isSome_fullMatch?_iff (p : Pattern) (t : Text) :
    (p.fullMatch? t).isSome = true ↔ ∃ groups, (⟨[], groups⟩ : Cursor) ∈ p.ways 1 (.ofText t) := by
  rw [fullMatch?, List.find?_isSome]
  simp only [decide_eq_true_eq]
  constructor
  · rintro ⟨⟨_, groups⟩, member, rfl⟩
    exact ⟨groups, member⟩
  · rintro ⟨groups, member⟩
    exact ⟨_, member, rfl⟩

theorem isSome_fullMatch?_of_reads {p : Pattern} {language : Text → Prop} (reads : p.Reads language)
    (t : Text) : (p.fullMatch? t).isSome = true ↔ language t := by
  rw [isSome_fullMatch?_iff]
  simp only [reads 1 (.ofText t)]
  simp only [Cursor.ofText, List.append_nil]
  constructor
  · rintro ⟨_, u, spoken, rfl, -⟩
    exact spoken
  · intro spoken
    exact ⟨[], t, spoken, rfl, rfl⟩

theorem ways_of_fullMatch? {p : Pattern} {t : Text} {e : Cursor} (found : p.fullMatch? t = some e) :
    e ∈ p.ways 1 (.ofText t) ∧ e.ahead = [] :=
  ⟨List.mem_of_find?_eq_some found, by simpa using List.find?_some found⟩

theorem isSome_matchHere?_iff (p : Pattern) (held : List (Nat × Text)) (t : Text) :
    (p.matchHere? held t).isSome = true ↔ ∃ e, e ∈ p.ways 1 ⟨t, held⟩ := by
  rw [matchHere?, List.isSome_head?]
  exact ⟨List.exists_mem_of_ne_nil _, fun ⟨_, member⟩ => List.ne_nil_of_mem member⟩

/-- A search finds a match where there is one, and skips no place that has one. -/
theorem search?_leftmost {p : Pattern} {held : List (Nat × Text)} {t front back : Text} {e : Cursor}
    (split : t = front ++ back) (member : e ∈ p.ways 1 ⟨back, held⟩) :
    ∃ skipped found, p.search? held t = some (skipped, found) ∧ skipped.length ≤ front.length := by
  induction t generalizing front with
  | nil =>
    obtain ⟨rfl, rfl⟩ := List.append_eq_nil_iff.mp split.symm
    obtain ⟨found, here⟩ := Option.isSome_iff_exists.mp
      ((isSome_matchHere?_iff p held []).mpr ⟨e, member⟩)
    exact ⟨[], found, by simp [search?, here], Nat.le_refl _⟩
  | cons c rest ih =>
    cases here : p.matchHere? held (c :: rest) with
    | some found => exact ⟨[], found, by simp [search?, here], Nat.zero_le _⟩
    | none =>
      cases front with
      | nil =>
        have some_way := (isSome_matchHere?_iff p held (c :: rest)).mpr ⟨e, by rwa [split]⟩
        simp [here] at some_way
      | cons d front =>
        obtain ⟨skipped, found, searched, within⟩ := ih (List.cons.inj split).2
        exact ⟨c :: skipped, found, by simp [search?, here, searched], Nat.succ_le_succ within⟩

theorem way_of_search? {p : Pattern} {held : List (Nat × Text)} {t skipped : Text} {e : Cursor}
    (searched : p.search? held t = some (skipped, e)) :
    ∃ back, t = skipped ++ back ∧ e ∈ p.ways 1 ⟨back, held⟩ := by
  induction t generalizing skipped e with
  | nil =>
    obtain ⟨found, here, same⟩ := Option.map_eq_some_iff.mp searched
    cases same
    exact ⟨[], rfl, List.mem_of_head? here⟩
  | cons c rest ih =>
    rw [search?] at searched
    cases here : p.matchHere? held (c :: rest) with
    | some found =>
      rw [here] at searched
      cases searched
      exact ⟨c :: rest, rfl, List.mem_of_head? here⟩
    | none =>
      rw [here] at searched
      obtain ⟨⟨later, found⟩, searched, same⟩ := Option.map_eq_some_iff.mp searched
      cases same
      obtain ⟨back, split, member⟩ := ih searched
      exact ⟨back, by rw [split, List.cons_append], member⟩

theorem isSome_search?_iff (p : Pattern) (held : List (Nat × Text)) (t : Text) :
    (p.search? held t).isSome = true ↔
      ∃ front back e, t = front ++ back ∧ e ∈ p.ways 1 ⟨back, held⟩ := by
  constructor
  · intro searched
    obtain ⟨⟨skipped, e⟩, found⟩ := Option.isSome_iff_exists.mp searched
    obtain ⟨back, split, member⟩ := way_of_search? found
    exact ⟨skipped, back, e, split, member⟩
  · rintro ⟨front, back, e, split, member⟩
    obtain ⟨skipped, found, searched, -⟩ := search?_leftmost split member
    simp [searched]

theorem mem_ways_capture (p : Pattern) (n : Nat) (s e : Cursor) :
    e ∈ (group p).ways n s ↔ ∃ m ∈ p.ways (n + 1) s, e = s.capture n m := by
  simp only [ways, List.mem_map, eq_comm]

theorem capture_of_split {s m : Cursor} {t : Text} (split : s.ahead = t ++ m.ahead) (n : Nat) :
    s.capture n m = ⟨m.ahead, (n, t) :: m.groups⟩ := by
  simp [Cursor.capture, Cursor.taken, split]

theorem mem_ways_sameAs {s : Cursor} {k : Nat} {t : Text} (held : s.groups.lookup k = some t)
    (n : Nat) (e : Cursor) :
    e ∈ (sameAs k).ways n s ↔ s.ahead = t ++ e.ahead ∧ e.groups = s.groups := by
  simp only [ways, held]
  constructor
  · intro read
    split at read
    · rename_i before
      obtain ⟨rest, split⟩ := before
      rw [List.mem_singleton.mp read, ← split]
      simp
    · simp at read
  · rintro ⟨split, kept⟩
    rw [if_pos ⟨e.ahead, split.symm⟩, List.mem_singleton]
    exact Cursor.ext (by simp [split]) kept

theorem mem_ways_group_sameAs {s : Cursor} {k : Nat} {t : Text}
    (held : s.groups.lookup k = some t) (n : Nat) (e : Cursor) :
    e ∈ (group (sameAs k)).ways n s ↔ s.ahead = t ++ e.ahead ∧ e.groups = (n, t) :: s.groups := by
  rw [mem_ways_capture]
  constructor
  · rintro ⟨m, read, rfl⟩
    obtain ⟨split, kept⟩ := (mem_ways_sameAs held _ m).mp read
    rw [capture_of_split split]
    exact ⟨split, by rw [kept]⟩
  · rintro ⟨split, kept⟩
    let m : Cursor := ⟨e.ahead, s.groups⟩
    refine ⟨m, (mem_ways_sameAs held _ m).mpr ⟨split, rfl⟩, ?_⟩
    rw [capture_of_split (m := m) split]
    exact Cursor.ext rfl kept

theorem mem_ways_notAhead {p : Pattern} {language : Text → Prop} (reads : p.Reads language) (n : Nat)
    (s e : Cursor) :
    e ∈ (notAhead p).ways n s ↔ e = s ∧ ∀ t rest, language t → s.ahead ≠ t ++ rest := by
  have nowhere : p.ways n s = [] ↔ ∀ t rest, language t → s.ahead ≠ t ++ rest := by
    rw [List.eq_nil_iff_forall_not_mem]
    simp only [reads n s]
    constructor
    · exact fun none t rest spoken split => none ⟨rest, s.groups⟩ ⟨t, spoken, split, rfl⟩
    · rintro none e ⟨t, spoken, split, -⟩
      exact none t e.ahead spoken split
  rw [← nowhere, ways]
  split
  · rename_i none
    simp [none]
  · rename_i some
    simp [some]

theorem mem_ways_notAhead_run (c : Char) (n : Nat) (s e : Cursor) :
    e ∈ (notAhead (plus (char c))).ways n s ↔ e = s ∧ Text.Stops (· = c) s.ahead := by
  have run : (plus (char c)).Reads fun t => t ≠ [] ∧ ∀ d ∈ t, d = c := by
    simpa only [decide_eq_true_eq] using reads_plus (p := char c) (fun _ => rfl)
  rw [mem_ways_notAhead run]
  refine and_congr_right fun _ => ?_
  constructor
  · intro none d head same
    obtain ⟨rest, split⟩ := List.head?_eq_some_iff.mp head
    exact none [d] rest (by simp [same]) (by simp [split])
  · rintro stops t rest ⟨nonempty, all⟩ split
    obtain ⟨d, t, rfl⟩ := List.exists_cons_of_ne_nil nonempty
    exact stops d (by simp [split]) (all d (by simp))

end LiteralGrammar.Pattern
