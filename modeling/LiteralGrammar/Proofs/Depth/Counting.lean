import LiteralGrammar.Block.Fault
import LiteralGrammar.Depth

/-!
Runs of the depth guard. A refused entry counts for nothing, so after every step the depth is the
entries let in less the exits. From zero it never rises above the limit, and it falls below zero only
where exits outnumber the entries.
-/
namespace LiteralGrammar.Depth.Guard

def after (g : Guard) : List Step → Guard
  | [] => g
  | s :: rest => (g.step s).1.after rest

def admitted (g : Guard) (steps : List Step) : Nat :=
  (steps.zip (g.run steps)).countP fun (s, _, refused) => s = .enter && !refused

def fault? : Guard × Bool → Option Block.Fault
  | (g, refused) => if refused then some (.tooDeep g.limit) else none

/-- All that a step can do. -/
theorem step_cases (g : Guard) (s : Step) :
    (s = .enter ∧ g.depth < g.limit ∧ g.step s = (⟨g.limit, g.depth + 1⟩, false)) ∨
    (s = .enter ∧ g.limit ≤ g.depth ∧ g.step s = (g, true)) ∨
    (s = .exit ∧ g.step s = (⟨g.limit, g.depth - 1⟩, false)) := by
  cases s with
  | enter =>
    by_cases room : g.depth < g.limit
    · exact .inl ⟨rfl, room, by rw [step, enter?, if_pos room]⟩
    · exact .inr (.inl ⟨rfl, Int.not_lt.mp room, by rw [step, enter?, if_neg room]⟩)
  | exit => exact .inr (.inr ⟨rfl, rfl⟩)

theorem limit_step (g : Guard) (s : Step) : (g.step s).1.limit = g.limit := by
  obtain ⟨-, -, stepped⟩ | ⟨-, -, stepped⟩ | ⟨-, stepped⟩ := g.step_cases s <;> rw [stepped]

theorem fault?_step_iff (g : Guard) (s : Step) (f : Block.Fault) :
    fault? (g.step s) = some f ↔ f = .tooDeep g.limit ∧ s = .enter ∧ g.limit ≤ g.depth := by
  obtain ⟨rfl, room, stepped⟩ | ⟨rfl, full, stepped⟩ | ⟨rfl, stepped⟩ := g.step_cases s
  · simp [stepped, fault?, Int.not_le.mpr room]
  · simp [stepped, fault?, full, eq_comm]
  · simp [stepped, fault?]

theorem depth_of_fault {g : Guard} {s : Step} {f : Block.Fault}
    (raised : fault? (g.step s) = some f) : (g.step s).1.depth = g.depth := by
  obtain ⟨-, -, stepped⟩ | ⟨-, -, stepped⟩ | ⟨-, stepped⟩ := g.step_cases s
  · rw [stepped] at raised
    cases raised
  · rw [stepped]
  · rw [stepped] at raised
    cases raised

theorem depth_step_le (g : Guard) (s : Step) : (g.step s).1.depth ≤ max g.depth g.limit := by
  obtain ⟨-, room, stepped⟩ | ⟨-, -, stepped⟩ | ⟨-, stepped⟩ := g.step_cases s <;>
    rw [stepped] <;> simp only <;> omega

theorem admitted_cons (g : Guard) (s : Step) (rest : List Step) :
    g.admitted (s :: rest) =
      (g.step s).1.admitted rest + if s = .enter ∧ (g.step s).2 = false then 1 else 0 := by
  simp [admitted, run, List.countP_cons]

theorem limit_after (g : Guard) (steps : List Step) : (g.after steps).limit = g.limit := by
  induction steps generalizing g with
  | nil => rfl
  | cons s rest ih => rw [after, ih, limit_step]

theorem depth_after (g : Guard) (steps : List Step) :
    (g.after steps).depth = g.depth + g.admitted steps - steps.count .exit := by
  induction steps generalizing g with
  | nil => simp [after, admitted]
  | cons s rest ih =>
    rw [after, ih, admitted_cons, List.count_cons]
    obtain ⟨rfl, -, stepped⟩ | ⟨rfl, -, stepped⟩ | ⟨rfl, stepped⟩ := g.step_cases s <;>
      simp [stepped] <;> omega

theorem depth_after_le (g : Guard) (steps : List Step) :
    (g.after steps).depth ≤ max g.depth g.limit := by
  induction steps generalizing g with
  | nil => exact Int.le_max_left _ _
  | cons s rest ih =>
    have later := ih (g.step s).1
    have first := g.depth_step_le s
    rw [limit_step] at later
    rw [after]
    omega

theorem after_append (g : Guard) (front rest : List Step) :
    g.after (front ++ rest) = (g.after front).after rest := by
  induction front generalizing g with
  | nil => rfl
  | cons s front ih => exact ih _

theorem getElem?_run (g : Guard) (steps : List Step) (i : Nat) :
    (g.run steps)[i]? = steps[i]?.map (g.after (steps.take i)).step := by
  induction steps generalizing g i with
  | nil => rfl
  | cons s rest ih =>
    cases i with
    | zero => rfl
    | succ i => exact ih _ i

theorem after_take_succ (g : Guard) {steps : List Step} {i : Nat} {s : Step}
    (found : steps[i]? = some s) :
    g.after (steps.take (i + 1)) = ((g.after (steps.take i)).step s).1 := by
  rw [List.take_add_one, found, after_append]
  rfl

/-- After any number of steps the depth is the entries let in less the exits. A step is refused exactly
if it is an entry and the depth before it is at the limit or above; the fault names that limit, and the
depth stays as it was. Where no first part of a run has more exits than entries let in, the depth is
never below zero, nor above the limit, or above zero if there is no room at all. -/
theorem depth_counts_entries (requested stack : Int) (steps : List Step) :
    let g := ofRequest requested stack
    let limit := min requested (Int.fdiv (stack - 50) 3)
    let now (n : Nat) := g.after (steps.take n)
    (∀ n, (now n).depth = g.admitted (steps.take n) - (steps.take n).count .exit) ∧
    (∀ i s, steps[i]? = some s → ∃ refused, (g.run steps)[i]? = some (now (i + 1), refused) ∧
      (∀ f, fault? (now (i + 1), refused) = some f ↔
        f = .tooDeep limit ∧ s = .enter ∧ limit ≤ (now i).depth) ∧
      (refused = true → (now (i + 1)).depth = (now i).depth)) ∧
    ((∀ n ≤ steps.length, (steps.take n).count .exit ≤ g.admitted (steps.take n)) →
      ∀ n ≤ steps.length, 0 ≤ (now n).depth ∧ (now n).depth ≤ max 0 limit) := by
  intro g limit now
  have counted (n : Nat) : (now n).depth =
      g.admitted (steps.take n) - (steps.take n).count .exit := by
    rw [depth_after, show g.depth = 0 from rfl, Int.zero_add]
  refine ⟨counted, ?_, ?_⟩
  · intro i s found
    have limited : (now i).limit = limit := g.limit_after _
    have stepped : (now i).step s = (now (i + 1), ((now i).step s).2) := by
      rw [show now (i + 1) = ((now i).step s).1 from g.after_take_succ found]
    refine ⟨((now i).step s).2, ?_, ?_, ?_⟩
    · rw [getElem?_run, found, Option.map_some, ← stepped]
    · intro f
      rw [← stepped, fault?_step_iff, limited]
    · intro refused
      have raised : fault? ((now i).step s) = some (.tooDeep (now (i + 1)).limit) := by
        rw [stepped, fault?, refused, if_pos rfl]
      rw [← depth_of_fault raised, stepped]
  · intro balanced n inside
    have fewer := balanced n inside
    refine ⟨?_, g.depth_after_le _⟩
    rw [counted]
    omega

theorem depth_counts_entries_refused :
    let g := ofRequest 2 1000
    let steps : List Step := [.enter, .enter, .enter, .exit, .exit]
    let now (n : Nat) := g.after (steps.take n)
    let short := ofRequest 7 40
    steps[2]? = some .enter ∧
    (∃ refused, (g.run steps)[2]? = some (now 3, refused) ∧
      (∀ f, fault? (now 3, refused) = some f ↔
        f = .tooDeep 2 ∧ Step.enter = .enter ∧ 2 ≤ (now 2).depth) ∧
      (refused = true → (now 3).depth = (now 2).depth)) ∧
    (∀ n ≤ 5, (steps.take n).count .exit ≤ g.admitted (steps.take n)) ∧
    (∀ n ≤ 5, 0 ≤ (now n).depth ∧ (now n).depth ≤ 2) ∧
    (∀ n ≤ 1, 0 ≤ (short.after ([.enter].take n)).depth ∧
      (short.after ([.enter].take n)).depth ≤ 0) := by
  intro g steps now short
  obtain ⟨-, stepped, bounded⟩ := depth_counts_entries 2 1000 steps
  obtain ⟨-, -, bounded_short⟩ := depth_counts_entries 7 40 [.enter]
  have balanced : ∀ n ≤ 5, (steps.take n).count .exit ≤ g.admitted (steps.take n) := by decide
  have none_left : ∀ n ≤ 1, (([.enter] : List Step).take n).count .exit ≤
      short.admitted ([.enter].take n) := by decide
  exact ⟨rfl, stepped 2 .enter rfl, balanced, bounded balanced, bounded_short none_left⟩

end LiteralGrammar.Depth.Guard
