import LiteralGrammar.Combination

/-!
The combinations of a list are its sublists, each capped at the same length, and they come longest
first.
-/
namespace LiteralGrammar.Combination

variable {α : Type}

theorem select_eq (mask : Nat) (xs : List α) :
    select mask xs = (xs.zipIdx.filter fun p => mask.testBit p.2).map Prod.fst := rfl

theorem select_cons (mask : Nat) (x : α) (xs : List α) :
    select mask (x :: xs) = (if mask.testBit 0 then [x] else []) ++ select (mask / 2) xs := by
  have shifted : xs.zipIdx 1 = xs.zipIdx.map fun p => (p.1, p.2 + 1) := List.zipIdx_succ
  have rest : ((xs.zipIdx 1).filter fun p => mask.testBit p.2).map Prod.fst =
      select (mask / 2) xs := by
    simp only [shifted, List.filter_map, List.map_map, select_eq]
    congr 1
    simp [Function.comp_def, Nat.testBit_succ]
  rw [select_eq, List.zipIdx_cons, List.filter_cons, Nat.zero_add]
  split
  · rw [List.map_cons, rest]
    rfl
  · rw [rest]
    rfl

theorem select_sublist (mask : Nat) (xs : List α) : (select mask xs).Sublist xs := by
  have kept := (List.filter_sublist (l := xs.zipIdx) (p := fun p => mask.testBit p.2)).map Prod.fst
  rwa [List.zipIdx_map_fst] at kept

theorem exists_select {t xs : List α} (sub : t.Sublist xs) :
    ∃ mask, mask < 1 <<< xs.length ∧ select mask xs = t := by
  induction sub with
  | slnil => exact ⟨0, by simp, rfl⟩
  | @cons t xs x _ ih =>
    obtain ⟨mask, bound, rfl⟩ := ih
    refine ⟨2 * mask, ?_, ?_⟩
    · rw [List.length_cons, Nat.shiftLeft_succ]
      omega
    · simp [select_cons]
  | @cons_cons t xs x _ ih =>
    obtain ⟨mask, bound, rfl⟩ := ih
    refine ⟨2 * mask + 1, ?_, ?_⟩
    · rw [List.length_cons, Nat.shiftLeft_succ]
      omega
    · have half : (2 * mask + 1) / 2 = mask := by omega
      simp [select_cons, half, Nat.add_mod]

theorem mem_powerSet (t xs : List α) : t ∈ powerSet xs ↔ t.Sublist xs := by
  simp only [powerSet, List.mem_map, List.mem_range]
  constructor
  · intro read
    obtain ⟨mask, _, rfl⟩ := read
    exact select_sublist mask xs
  · exact exists_select

theorem mem_powerSetUpTo (cap : Nat) (t xs : List α) :
    t ∈ powerSetUpTo cap xs ↔ t.Sublist xs ∧ t.length ≤ cap := by
  simp only [powerSetUpTo, List.mem_filter, mem_powerSet, decide_eq_true_eq]

theorem powerSetUpTo_length (xs : List α) : powerSetUpTo xs.length xs = powerSet xs := by
  refine List.filter_eq_self.mpr fun t member => decide_eq_true ?_
  exact ((mem_powerSet t xs).mp member).length_le

theorem longestFirst_sorted (combinations : List (List α)) :
    (longestFirst combinations).Pairwise fun a b => b.length ≤ a.length := by
  have sorted : (longestFirst combinations).Pairwise fun a b => decide (b.length ≤ a.length) := by
    apply List.pairwise_mergeSort
    · intro a b c hab hbc
      simp only [decide_eq_true_eq] at *
      omega
    · intro a b
      simp only [Bool.or_eq_true, decide_eq_true_eq]
      omega
  exact sorted.imp of_decide_eq_true

theorem mem_ofMarkers (cap : Nat) (ms : List Marker) :
    ms ∈ ofMarkers cap ↔ ms.Sublist Marker.canonical ∧ ms.length ≤ cap := by
  rw [ofMarkers, longestFirst, List.mem_mergeSort, mem_powerSetUpTo]

/-- Between a sublist and its list there is a sublist of every length between theirs. -/
theorem exists_sublist_between {t xs : List α} (sub : t.Sublist xs) {k : Nat}
    (low : t.length ≤ k) (high : k ≤ xs.length) :
    ∃ u, t.Sublist u ∧ u.Sublist xs ∧ u.length = k := by
  induction sub generalizing k with
  | slnil =>
    simp only [List.length_nil, Nat.le_zero_eq] at high
    exact ⟨[], List.Sublist.slnil, List.Sublist.slnil, high.symm⟩
  | @cons t xs x sub ih =>
    by_cases whole : k ≤ xs.length
    · obtain ⟨u, below, above, length⟩ := ih low whole
      exact ⟨u, below, above.cons x, length⟩
    · rw [List.length_cons] at high
      refine ⟨x :: xs, sub.cons x, List.Sublist.refl _, ?_⟩
      rw [List.length_cons]
      omega
  | @cons_cons t xs x sub ih =>
    rw [List.length_cons] at low high
    obtain ⟨u, below, above, length⟩ := ih (k := k - 1) (by omega) (by omega)
    refine ⟨x :: u, below.cons_cons x, above.cons_cons x, ?_⟩
    rw [List.length_cons]
    omega

end LiteralGrammar.Combination
