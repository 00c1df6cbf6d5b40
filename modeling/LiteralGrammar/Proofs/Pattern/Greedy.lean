import LiteralGrammar.Proofs.Pattern.Matching
import LiteralGrammar.Proofs.Text.Runs

/-!
The first way. A repetition of single characters takes a whole run before it tries less, so where
the text goes on with something else, the first way of a pattern is put together from the first ways
of its parts.
-/
namespace LiteralGrammar.Pattern

def Takes (p : Pattern) (t rest : Text) : Prop :=
  ∀ n groups, (p.ways n ⟨t ++ rest, groups⟩).head? = some ⟨rest, groups⟩

theorem one_of_stops {accepts : Char → Bool} {rest : Text} (stops : Text.Stops (accepts ·) rest)
    (groups : List (Nat × Text)) : one accepts ⟨rest, groups⟩ = [] := by
  cases rest with
  | nil => rfl
  | cons c rest => simp [one, stops c (by simp)]

theorem one_of_accepted {accepts : Char → Bool} {c : Char} (accepted : accepts c = true)
    (rest : Text) (groups : List (Nat × Text)) :
    one accepts ⟨c :: rest, groups⟩ = [⟨rest, groups⟩] := by
  simp [one, accepted]

theorem head_rounds_one {accepts : Char → Bool} {run rest : Text}
    (all : ∀ c ∈ run, accepts c = true) (stops : Text.Stops (accepts ·) rest) {n : Nat}
    (enough : run.length ≤ n) (groups : List (Nat × Text)) :
    (rounds (one accepts) n ⟨run ++ rest, groups⟩).head? = some ⟨rest, groups⟩ := by
  induction run generalizing n with
  | nil =>
    cases n with
    | zero => rfl
    | succ n => simp [rounds, one_of_stops stops]
  | cons c run ih =>
    obtain ⟨n, rfl⟩ := Nat.exists_eq_succ_of_ne_zero (Nat.ne_zero_of_lt enough)
    obtain ⟨first, all⟩ := List.forall_mem_cons.mp all
    have later := ih all (Nat.le_of_succ_le_succ enough)
    simp [rounds, one_of_accepted first, List.head?_append, later]

theorem takes_empty (rest : Text) : empty.Takes [] rest := fun _ _ => rfl

theorem takes_char (c : Char) (rest : Text) : (char c).Takes [c] rest := by
  intro n groups
  change (one (· = c) ⟨c :: rest, groups⟩).head? = _
  rw [one_of_accepted (decide_eq_true rfl)]
  rfl

theorem takes_star {p : Pattern} {accepts : Char → Bool} (single : p.Single accepts)
    {run rest : Text} (all : ∀ c ∈ run, accepts c = true) (stops : Text.Stops (accepts ·) rest) :
    (star p).Takes run rest := by
  intro n groups
  change (rounds (p.ways n) _ _).head? = _
  rw [single]
  exact head_rounds_one all stops (by simp) groups

theorem head_seq {p q : Pattern} {n : Nat} {s m e : Cursor} (first : (p.ways n s).head? = some m)
    (second : (q.ways (n + p.groupCount) m).head? = some e) :
    ((seq p q).ways n s).head? = some e := by
  obtain ⟨later, found⟩ := List.head?_eq_some_iff.mp first
  change ((p.ways n s).flatMap (q.ways (n + p.groupCount))).head? = _
  rw [found, List.flatMap_cons, List.head?_append, second]
  rfl

theorem takes_seq {p q : Pattern} {t u rest : Text} (first : p.Takes t (u ++ rest))
    (second : q.Takes u rest) : (seq p q).Takes (t ++ u) rest := by
  intro n groups
  rw [List.append_assoc]
  exact head_seq (first n groups) (second _ groups)

theorem takes_plus {p : Pattern} {accepts : Char → Bool} (single : p.Single accepts)
    {run rest : Text} (nonempty : run ≠ []) (all : ∀ c ∈ run, accepts c = true)
    (stops : Text.Stops (accepts ·) rest) : (plus p).Takes run rest := by
  intro n groups
  obtain ⟨c, run, rfl⟩ := List.exists_cons_of_ne_nil nonempty
  obtain ⟨first, all⟩ := List.forall_mem_cons.mp all
  change ((p.ways n _).flatMap fun e => rounds (p.ways n) e.ahead.length e).head? = _
  rw [single, List.cons_append, one_of_accepted first, List.flatMap_singleton]
  exact head_rounds_one all stops (by simp) groups

theorem head_group {p : Pattern} {t rest : Text} (takes : p.Takes t rest) (n : Nat)
    (groups : List (Nat × Text)) :
    ((group p).ways n ⟨t ++ rest, groups⟩).head? = some ⟨rest, (n, t) :: groups⟩ := by
  change ((p.ways (n + 1) _).map (Cursor.capture n _)).head? = _
  rw [List.head?_map, takes (n + 1) groups]
  simp [Cursor.capture, Cursor.taken]

end LiteralGrammar.Pattern
