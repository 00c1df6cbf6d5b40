import LiteralGrammar.Pattern
import LiteralGrammar.Text.Blank

/-!
Matching with backtracking. `ways` lists where a pattern can end and what its groups then hold, in
the order in which the alternatives are tried; a match is the first of them. Repetition is greedy,
and a round that takes nothing is not counted as one.
-/
namespace LiteralGrammar.Pattern

/-- What is still to be read, and what the closed groups hold, the newest first. -/
@[ext]
structure Cursor where
  ahead : Text
  groups : List (Nat × Text)
deriving DecidableEq, Repr

namespace Cursor

def ofText (t : Text) : Cursor := ⟨t, []⟩

def taken (s e : Cursor) : Text := s.ahead.take (s.ahead.length - e.ahead.length)

def capture (n : Nat) (s e : Cursor) : Cursor := { e with groups := (n, s.taken e) :: e.groups }

end Cursor

def groupCount : Pattern → Nat
  | star p | plus p | notAhead p => p.groupCount
  | seq p q | alt p q => p.groupCount + q.groupCount
  | group p => p.groupCount + 1
  | _ => 0

def one (accepts : Char → Bool) (s : Cursor) : List Cursor :=
  match s.ahead with
  | [] => []
  | c :: rest => if accepts c then [{ s with ahead := rest }] else []

/-- Another round is tried before stopping. -/
def rounds (body : Cursor → List Cursor) : Nat → Cursor → List Cursor
  | 0, s => [s]
  | n + 1, s => ((body s).filter (·.ahead.length < s.ahead.length)).flatMap (rounds body n) ++ [s]

/-- `n` is the number of the first group of the pattern. A group that is still open holds what it
held before. -/
def ways : Pattern → Nat → Cursor → List Cursor
  | empty, _, s => [s]
  | char c, _, s => one (· = c) s
  | blank, _, s => one Text.isBlank s
  | oneOf cs, _, s => one (· ∈ cs) s
  | star p, n, s => rounds (p.ways n) s.ahead.length s
  | plus p, n, s => (p.ways n s).flatMap fun e => rounds (p.ways n) e.ahead.length e
  | seq p q, n, s => (p.ways n s).flatMap (q.ways (n + p.groupCount))
  | alt p q, n, s => p.ways n s ++ q.ways (n + p.groupCount) s
  | group p, n, s => (p.ways (n + 1) s).map (s.capture n)
  | sameAs k, _, s =>
    match s.groups.lookup k with
    | none => []
    | some t => if t <+: s.ahead then [{ s with ahead := s.ahead.drop t.length }] else []
  | notAhead p, n, s => if p.ways n s = [] then [s] else []

def match? (p : Pattern) (t : Text) : Option Cursor := (p.ways 1 (.ofText t)).head?

theorem mem_one (accepts : Char → Bool) (s e : Cursor) :
    e ∈ one accepts s ↔ ∃ c, accepts c = true ∧ s.ahead = c :: e.ahead ∧ e.groups = s.groups := by
  obtain ⟨ahead, groups⟩ := s
  cases ahead with
  | nil => simp [one]
  | cons c rest =>
    simp only [one]
    constructor
    · intro member
      split at member
      · rename_i accepted
        cases List.mem_singleton.mp member
        exact ⟨c, accepted, rfl, rfl⟩
      · simp at member
    · intro read
      obtain ⟨d, accepted, split, kept⟩ := read
      obtain ⟨rfl, rest_eq⟩ := List.cons.inj split
      rw [if_pos accepted, List.mem_singleton]
      exact Cursor.ext rest_eq.symm kept

theorem length_of_mem_one {accepts : Char → Bool} {s e : Cursor} (member : e ∈ one accepts s) :
    s.ahead.length = e.ahead.length + 1 := by
  obtain ⟨c, -, split, -⟩ := (mem_one accepts s e).mp member
  rw [split, List.length_cons]

theorem exists_one_iff (accepts : Char → Bool) (s e : Cursor) :
    (∃ m ∈ one accepts s,
      ∃ run, (∀ c ∈ run, accepts c = true) ∧ m.ahead = run ++ e.ahead ∧ e.groups = m.groups) ↔
      ∃ run, (run ≠ [] ∧ ∀ c ∈ run, accepts c = true) ∧ s.ahead = run ++ e.ahead ∧
        e.groups = s.groups := by
  constructor
  · intro read
    obtain ⟨m, first, run, all, split', kept'⟩ := read
    obtain ⟨c, accepted, split, kept⟩ := (mem_one accepts s m).mp first
    refine ⟨c :: run, ⟨by simp, ?_⟩, by rw [split, split', List.cons_append], kept'.trans kept⟩
    exact List.forall_mem_cons.mpr ⟨accepted, all⟩
  · intro read
    obtain ⟨run, ⟨nonempty, all⟩, split, kept⟩ := read
    obtain ⟨c, run, rfl⟩ := List.exists_cons_of_ne_nil nonempty
    obtain ⟨accepted, all⟩ := List.forall_mem_cons.mp all
    refine ⟨⟨run ++ e.ahead, s.groups⟩, ?_, run, all, rfl, kept⟩
    exact (mem_one accepts s _).mpr ⟨c, accepted, split, rfl⟩

theorem mem_rounds_one (accepts : Char → Bool) (n : Nat) (s e : Cursor)
    (enough : s.ahead.length ≤ n) :
    e ∈ rounds (one accepts) n s ↔
      ∃ run, (∀ c ∈ run, accepts c = true) ∧ s.ahead = run ++ e.ahead ∧ e.groups = s.groups := by
  induction n generalizing s with
  | zero =>
    have nothing : s.ahead = [] := List.length_eq_zero_iff.mp (by omega)
    simp only [rounds, List.mem_singleton]
    constructor
    · intro same
      subst same
      exact ⟨[], by simp, rfl, rfl⟩
    · intro read
      obtain ⟨run, _, split, kept⟩ := read
      rw [nothing, eq_comm, List.append_eq_nil_iff] at split
      exact Cursor.ext (split.2.trans nothing.symm) kept
  | succ n ih =>
    have shorter : (one accepts s).filter (·.ahead.length < s.ahead.length) = one accepts s :=
      List.filter_eq_self.mpr fun m member => by simp [length_of_mem_one member]
    have later : ∀ m ∈ one accepts s, m.ahead.length ≤ n := by
      intro m member
      have := length_of_mem_one member
      omega
    rw [rounds, shorter, List.mem_append, List.mem_flatMap, List.mem_singleton,
      exists_congr fun m => and_congr_right fun member => ih m (later m member), exists_one_iff]
    constructor
    · rintro (⟨run, ⟨-, all⟩, read⟩ | rfl)
      · exact ⟨run, all, read⟩
      · exact ⟨[], by simp, rfl, rfl⟩
    · rintro ⟨run, all, split, kept⟩
      cases run with
      | nil => exact .inr (Cursor.ext split.symm kept)
      | cons c run => exact .inl ⟨c :: run, ⟨by simp, all⟩, split, kept⟩

/-- From every position the pattern reads exactly the texts of the language, and no group of it
stays behind. -/
def Reads (p : Pattern) (language : Text → Prop) : Prop :=
  ∀ n s e, e ∈ p.ways n s ↔
    ∃ t, language t ∧ s.ahead = t ++ e.ahead ∧ e.groups = s.groups

def Single (p : Pattern) (accepts : Char → Bool) : Prop := ∀ n, p.ways n = one accepts

theorem reads_empty : empty.Reads (· = []) := by
  intro n s e
  simp only [ways, List.mem_singleton, exists_eq_left, List.nil_append]
  constructor
  · intro same
    subst same
    exact ⟨rfl, rfl⟩
  · intro read
    obtain ⟨same, kept⟩ := read
    exact Cursor.ext same.symm kept

theorem reads_char (c : Char) : (char c).Reads (· = [c]) := by
  intro n s e
  change e ∈ one (· = c) s ↔ _
  simp [mem_one]

theorem reads_star {p : Pattern} {accepts : Char → Bool} (single : p.Single accepts) :
    (star p).Reads fun t => ∀ c ∈ t, accepts c = true := by
  intro n s e
  rw [ways, single, mem_rounds_one _ _ _ _ (Nat.le_refl _)]

theorem reads_plus {p : Pattern} {accepts : Char → Bool} (single : p.Single accepts) :
    (plus p).Reads fun t => t ≠ [] ∧ ∀ c ∈ t, accepts c = true := by
  intro n s e
  simp only [ways, single n, List.mem_flatMap, mem_rounds_one _ _ _ _ (Nat.le_refl _)]
  exact exists_one_iff accepts s e

theorem mem_ways_seq (p q : Pattern) (n : Nat) (s e : Cursor) :
    e ∈ (seq p q).ways n s ↔ ∃ m ∈ p.ways n s, e ∈ q.ways (n + p.groupCount) m :=
  List.mem_flatMap

theorem reads_seq {p q : Pattern} {first second : Text → Prop} (hp : p.Reads first)
    (hq : q.Reads second) :
    (seq p q).Reads fun t => ∃ u v, first u ∧ second v ∧ t = u ++ v := by
  intro n s e
  rw [mem_ways_seq]
  constructor
  · intro read
    obtain ⟨m, left, right⟩ := read
    obtain ⟨u, hu, split, kept⟩ := (hp n s m).mp left
    obtain ⟨v, hv, split', kept'⟩ := (hq _ m e).mp right
    exact ⟨u ++ v, ⟨u, v, hu, hv, rfl⟩, by rw [split, split', List.append_assoc], kept'.trans kept⟩
  · intro read
    obtain ⟨t, ⟨u, v, hu, hv, rfl⟩, split, kept⟩ := read
    refine ⟨⟨v ++ e.ahead, s.groups⟩, (hp n s _).mpr ⟨u, hu, ?_, rfl⟩, (hq _ _ e).mpr ?_⟩
    · rw [split, List.append_assoc]
    · exact ⟨v, hv, rfl, kept⟩

theorem reads_alt {p q : Pattern} {first second : Text → Prop} (hp : p.Reads first)
    (hq : q.Reads second) : (alt p q).Reads fun t => first t ∨ second t := by
  intro n s e
  rw [ways, List.mem_append, hp, hq]
  constructor
  · rintro (⟨t, ht, read⟩ | ⟨t, ht, read⟩)
    · exact ⟨t, Or.inl ht, read⟩
    · exact ⟨t, Or.inr ht, read⟩
  · rintro ⟨t, ht | ht, read⟩
    · exact Or.inl ⟨t, ht, read⟩
    · exact Or.inr ⟨t, ht, read⟩

theorem reads_literal (t : Text) : (literal t).Reads (· = t) := by
  fun_induction literal t with
  | case1 => exact reads_empty
  | case2 c => exact reads_char c
  | case3 c rest _ ih =>
    intro n s e
    simpa using reads_seq (reads_char c) ih n s e

theorem reads_anyOf_literal {ts : List Text} (nonempty : ts ≠ []) :
    (anyOf (ts.map literal)).Reads (· ∈ ts) := by
  induction ts with
  | nil => exact absurd rfl nonempty
  | cons t rest ih =>
    intro n s e
    cases rest with
    | nil => simpa [anyOf] using reads_literal t n s e
    | cons u rest =>
      change e ∈ (alt (literal t) (anyOf ((u :: rest).map literal))).ways n s ↔ _
      rw [reads_alt (reads_literal t) (ih (List.cons_ne_nil u rest)) n s e]
      simp only [List.mem_cons]

theorem mem_ways_group {p : Pattern} {language : Text → Prop} (hp : p.Reads language) (n : Nat)
    (s e : Cursor) :
    e ∈ (group p).ways n s ↔
      ∃ t, language t ∧ s.ahead = t ++ e.ahead ∧ e.groups = (n, t) :: s.groups := by
  simp only [ways, List.mem_map]
  constructor
  · intro read
    obtain ⟨m, read, rfl⟩ := read
    obtain ⟨t, ht, split, kept⟩ := (hp _ s m).mp read
    refine ⟨t, ht, split, ?_⟩
    simp [Cursor.capture, Cursor.taken, split, kept]
  · intro read
    obtain ⟨t, ht, split, kept⟩ := read
    refine ⟨⟨e.ahead, s.groups⟩, (hp _ s _).mpr ⟨t, ht, split, rfl⟩, ?_⟩
    apply Cursor.ext
    · rfl
    · simp [Cursor.capture, Cursor.taken, split, kept]

end LiteralGrammar.Pattern
