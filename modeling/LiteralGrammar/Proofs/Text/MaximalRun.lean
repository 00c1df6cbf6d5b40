import LiteralGrammar.Proofs.Text.Runs
import Mathlib.Data.List.Induction

/-!
The runs of a mark in a text, each as long as it can be. Two of them never touch, so that each is
known by the place where it begins.
-/
namespace LiteralGrammar.Text

variable {α : Type}

theorem mem_of_getElem?_between {front w rest : List α} {i : Nat} {a : α}
    (found : (front ++ (w ++ rest))[i]? = some a) (low : front.length ≤ i)
    (high : i < front.length + w.length) : a ∈ w := by
  rw [List.getElem?_append_right low, List.getElem?_append_left (by omega)] at found
  exact List.mem_of_getElem? found

structure Run (mark : α) (t : List α) where
  front : List α
  length : Nat
  rest : List α
  whole : t = front ++ (List.replicate length mark ++ rest)
  positive : 0 < length
  begins : front.getLast? ≠ some mark
  ends : Stops (· = mark) rest

theorem exists_last_run (mark : α) (t : List α) :
    ∃ front n, t = front ++ List.replicate n mark ∧ front.getLast? ≠ some mark := by
  induction t using List.reverseRecOn with
  | nil => exact ⟨[], 0, rfl, by simp⟩
  | append_singleton t c ih =>
    by_cases same : c = mark
    · obtain ⟨front, n, rfl, begins⟩ := ih
      exact ⟨front, n + 1, by simp [same, List.replicate_succ'], begins⟩
    · exact ⟨t ++ [c], 0, by simp, by simp [same]⟩

namespace Run

variable {mark : α} {t : List α}

theorem getElem?_inside (run : Run mark t) {i : Nat} (low : run.front.length ≤ i)
    (high : i < run.front.length + run.length) : t[i]? = some mark := by
  rw [congrArg (·[i]?) run.whole, List.getElem?_append_right low, List.getElem?_append_left]
  · rw [List.getElem?_replicate_of_lt (by omega)]
  · rw [List.length_replicate]
    omega

theorem getElem?_before (run : Run mark t) {i : Nat} (before : i + 1 = run.front.length) :
    t[i]? ≠ some mark := by
  rw [congrArg (·[i]?) run.whole, List.getElem?_append_left (by omega)]
  have last := run.begins
  rwa [List.getLast?_eq_getElem?, ← before, Nat.add_sub_cancel] at last

theorem rest_unique {run other : Run mark t} (same : run.front.length = other.front.length) :
    run.rest = other.rest := by
  have split := run.whole.symm.trans other.whole
  obtain ⟨_, behind⟩ := List.append_inj split same
  have marks : ∀ n, ∀ c ∈ List.replicate n mark, c = mark := fun n c => List.eq_of_mem_replicate
  exact (run_unique (marks _) (marks _) run.ends other.ends behind).2

theorem ends_before {run other : Run mark t} (later : run.front.length < other.front.length) :
    run.front.length + run.length < other.front.length := by
  obtain ⟨i, before⟩ := Nat.exists_eq_add_of_lt later
  have outside := other.getElem?_before (i := run.front.length + i) before.symm
  refine Nat.lt_of_not_le fun within => ?_
  exact outside (run.getElem?_inside (by omega) (by omega))

end Run

end LiteralGrammar.Text
