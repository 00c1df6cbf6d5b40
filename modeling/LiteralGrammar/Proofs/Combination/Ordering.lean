import LiteralGrammar.Proofs.Combination.Sublists
import Mathlib.Data.List.Perm.Subperm

/-!
The order of combinations, as a list of classes: all of the largest length, then all of the next,
each class in the order that it came in. A cap leaves out the first classes and keeps the others as
they are.
-/
namespace LiteralGrammar.Combination

variable {α : Type}

def ofLength (k : Nat) (combinations : List (List α)) : List (List α) :=
  combinations.filter (·.length = k)

def downFrom (combinations : List (List α)) : Nat → List (List α)
  | 0 => ofLength 0 combinations
  | n + 1 => ofLength (n + 1) combinations ++ downFrom combinations n

theorem downFrom_congr {l l' : List (List α)} {n : Nat}
    (same : ∀ k ≤ n, ofLength k l = ofLength k l') : downFrom l n = downFrom l' n := by
  induction n with
  | zero => exact same 0 (Nat.le_refl 0)
  | succ n ih =>
    rw [downFrom, downFrom, same (n + 1) (Nat.le_refl _),
      ih fun k small => same k (Nat.le_succ_of_le small)]

theorem downFrom_suffix (l : List (List α)) {m n : Nat} (le : m ≤ n) :
    downFrom l m <:+ downFrom l n := by
  induction le with
  | refl => exact List.suffix_refl _
  | step _ ih => exact ih.trans (List.suffix_append _ _)

/-- Where each member that passes stands before those that do not, the list is cut by the test. -/
theorem eq_filter_append {β : Type} {p : β → Bool} {l : List β}
    (sorted : l.Pairwise fun a b => p b = true → p a = true) :
    l = l.filter p ++ l.filter (!p ·) := by
  induction l with
  | nil => rfl
  | cons a l ih =>
    obtain ⟨first, sorted⟩ := List.pairwise_cons.mp sorted
    cases passes : p a with
    | true =>
      rw [List.filter_cons_of_pos passes, List.filter_cons_of_neg (by simp [passes]),
        List.cons_append, ← ih sorted]
    | false =>
      have none : ∀ b ∈ l, p b = false := by
        intro b member
        by_contra other
        simp [first b member (by simpa using other)] at passes
      rw [List.filter_eq_nil_iff.mpr (by simpa [passes] using none),
        List.filter_eq_self.mpr (by simpa [passes] using none), List.nil_append]

theorem ofLength_filter {k cap : Nat} (small : k ≤ cap) (l : List (List α)) :
    ofLength k (l.filter (·.length ≤ cap)) = ofLength k l := by
  rw [ofLength, ofLength, List.filter_filter]
  refine List.filter_congr fun a _ => ?_
  by_cases size : a.length = k <;> simp [size, small]

theorem eq_downFrom {l : List (List α)} (sorted : l.Pairwise fun a b => b.length ≤ a.length) {n : Nat}
    (bound : ∀ a ∈ l, a.length ≤ n) : l = downFrom l n := by
  induction n generalizing l with
  | zero => exact (List.filter_eq_self.mpr (by simpa using bound)).symm
  | succ n ih =>
    have cut := eq_filter_append (p := fun a : List α => a.length = n + 1)
      (sorted.imp_of_mem fun inA _ shorter => by
        have low := bound _ inA
        simp only [decide_eq_true_eq]
        omega)
    have others : l.filter (fun a => !decide (a.length = n + 1)) = l.filter (·.length ≤ n) := by
      refine List.filter_congr fun a member => ?_
      have low := bound a member
      by_cases size : a.length = n + 1
      · simp [size]
      · simp [size, show a.length ≤ n by omega]
    have rest := ih (l := l.filter (·.length ≤ n)) (sorted.filter _) (by simp)
    rw [downFrom_congr fun k small => ofLength_filter small l] at rest
    rw [others, rest] at cut
    exact cut

theorem longestFirst_perm (l : List (List α)) : (longestFirst l).Perm l := List.mergeSort_perm _ _

theorem ofLength_longestFirst (k : Nat) (l : List (List α)) :
    ofLength k (longestFirst l) = ofLength k l := by
  have alike : ∀ a ∈ ofLength k l, a.length = k :=
    fun a member => of_decide_eq_true (List.mem_filter.mp member).2
  have sorted : (ofLength k l).Pairwise fun a b => decide (b.length ≤ a.length) :=
    List.pairwise_of_forall_mem_list fun a inA b inB => by simp [alike a inA, alike b inB]
  have kept : (ofLength k l).Sublist (longestFirst l) := by
    refine List.sublist_mergeSort ?_ ?_ sorted List.filter_sublist
    · intro a b c
      simp only [decide_eq_true_eq]
      omega
    · intro a b
      simp only [Bool.or_eq_true, decide_eq_true_eq]
      omega
  have class_kept := kept.filter (·.length = k)
  rw [List.filter_eq_self.mpr (by simpa using alike)] at class_kept
  refine (class_kept.eq_of_length ?_).symm
  exact ((longestFirst_perm l).filter _).length_eq.symm

theorem longestFirst_eq {l : List (List α)} {n : Nat} (bound : ∀ a ∈ l, a.length ≤ n) :
    longestFirst l = downFrom l n := by
  have within : ∀ a ∈ longestFirst l, a.length ≤ n :=
    fun a member => bound a ((longestFirst_perm l).mem_iff.mp member)
  rw [eq_downFrom (longestFirst_sorted l) within]
  exact downFrom_congr fun k _ => ofLength_longestFirst k l

/-- Capping takes the last classes. -/
theorem longestFirst_filter_suffix (l : List (List α)) (cap : Nat) :
    longestFirst (l.filter (·.length ≤ cap)) <:+ longestFirst l := by
  have bound : ∀ a ∈ l, a.length ≤ max cap l.flatten.length := fun a member =>
    Nat.le_trans (List.sublist_flatten_of_mem member).length_le (Nat.le_max_right _ _)
  have capped : ∀ a ∈ l.filter (·.length ≤ cap), a.length ≤ cap :=
    fun a member => of_decide_eq_true (List.mem_filter.mp member).2
  rw [longestFirst_eq bound, longestFirst_eq capped,
    downFrom_congr fun k small => ofLength_filter small l]
  exact downFrom_suffix l (Nat.le_max_left _ _)

def LargerFirst (combinations : List (List α)) : Prop :=
  combinations.Pairwise fun a b => ¬(a ⊆ b ∧ ¬b ⊆ a)

theorem longestFirst_largerFirst {l : List (List α)} (distinct : ∀ a ∈ l, a.Nodup) :
    LargerFirst (longestFirst l) := by
  refine (longestFirst_sorted l).imp_of_mem fun inA _ shorter => ?_
  rintro ⟨within, more⟩
  have nodup := distinct _ ((longestFirst_perm l).mem_iff.mp inA)
  exact more ((List.subperm_of_subset nodup within).perm_of_length_le shorter).symm.subset

end LiteralGrammar.Combination
