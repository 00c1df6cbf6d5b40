import LiteralGrammar.Text.Basic

/-!
Cutting a list where a run ends: a part whose members are all of one kind, before a rest that does
not go on with one, can be cut off in one way only. So can blocks that each open with a member of
the kind and hold no further one: cutting before each member of the kind gives the blocks back.
-/
namespace LiteralGrammar.Text

variable {α : Type}

def Stops (kind : α → Prop) (t : List α) : Prop := ∀ c ∈ t.head?, ¬kind c

theorem takeWhile_run {kind : α → Bool} {run rest : List α} (all : ∀ c ∈ run, kind c = true)
    (stops : Stops (kind ·) rest) :
    (run ++ rest).takeWhile kind = run ∧ (run ++ rest).dropWhile kind = rest := by
  rw [List.takeWhile_append_of_pos all, List.dropWhile_append_of_pos all]
  cases rest with
  | nil => simp
  | cons c rest => simp [stops c rfl]

theorem run_unique {kind : α → Prop} {a b x y : List α} (ha : ∀ c ∈ a, kind c)
    (hb : ∀ c ∈ b, kind c) (hx : Stops kind x) (hy : Stops kind y) (same : a ++ x = b ++ y) :
    a = b ∧ x = y := by
  induction a generalizing b with
  | nil =>
    cases b with
    | nil => exact ⟨rfl, same⟩
    | cons c b =>
      have head : x.head? = some c := by rw [List.nil_append] at same; simp [same]
      exact absurd (hb c (by simp)) (hx c head)
  | cons c a ih =>
    cases b with
    | nil =>
      have head : y.head? = some c := by rw [List.nil_append] at same; simp [← same]
      exact absurd (ha c (by simp)) (hy c head)
    | cons d b =>
      obtain ⟨rfl, rest⟩ := List.cons.inj same
      obtain ⟨rfl, tails⟩ := ih (List.forall_mem_cons.mp ha).2 (List.forall_mem_cons.mp hb).2 rest
      exact ⟨rfl, tails⟩

theorem cut_unique {a b x y : List α} {mark : α} (ha : mark ∉ a) (hb : mark ∉ b)
    (same : a ++ mark :: x = b ++ mark :: y) : a = b ∧ x = y := by
  have outside : ∀ {l : List α}, mark ∉ l → ∀ c ∈ l, c ≠ mark := by
    intro l absent c member same
    exact absent (same ▸ member)
  have stops : ∀ l : List α, Stops (· ≠ mark) (mark :: l) := by
    intro l c head
    simp only [List.head?_cons, Option.mem_some_iff] at head
    simp [head]
  obtain ⟨before, behind⟩ := run_unique (outside ha) (outside hb) (stops x) (stops y) same
  exact ⟨before, (List.cons.inj behind).2⟩

/-- A block, as its first member and the others: the first is of the kind, and no other is. -/
def Headed (kind : α → Prop) (b : α × List α) : Prop := kind b.1 ∧ ∀ c ∈ b.2, ¬kind c

def ofBlocks (blocks : List (α × List α)) : List α := blocks.flatMap fun b => b.1 :: b.2

theorem stops_ofBlocks {kind : α → Prop} {blocks : List (α × List α)}
    (headed : ∀ b ∈ blocks, Headed kind b) : Stops (¬kind ·) (ofBlocks blocks) := by
  cases blocks with
  | nil => simp [Stops, ofBlocks]
  | cons b rest =>
    intro c head
    simp only [ofBlocks, List.flatMap_cons, List.cons_append, List.head?_cons,
      Option.mem_some_iff] at head
    rw [← head]
    exact not_not_intro (headed b (by simp)).1

theorem blocks_unique {kind : α → Prop} {xs ys : List (α × List α)}
    (hx : ∀ b ∈ xs, Headed kind b) (hy : ∀ b ∈ ys, Headed kind b)
    (same : ofBlocks xs = ofBlocks ys) : xs = ys := by
  induction xs generalizing ys with
  | nil =>
    cases ys with
    | nil => rfl
    | cons b rest => simp [ofBlocks] at same
  | cons a xs ih =>
    cases ys with
    | nil => simp [ofBlocks] at same
    | cons b ys =>
      have hx := List.forall_mem_cons.mp hx
      have hy := List.forall_mem_cons.mp hy
      obtain ⟨heads, tails⟩ := List.cons.inj same
      obtain ⟨first, later⟩ :=
        run_unique hx.1.2 hy.1.2 (stops_ofBlocks hx.2) (stops_ofBlocks hy.2) tails
      rw [Prod.ext heads first, ih hx.2 hy.2 later]

def cutBefore (kind : α → Prop) [DecidablePred kind] : List α → List α × List (α × List α)
  | [] => ([], [])
  | c :: rest =>
    let (loose, blocks) := cutBefore kind rest
    if kind c then ([], (c, loose) :: blocks) else (c :: loose, blocks)

section

variable {kind : α → Prop} [DecidablePred kind]

theorem cutBefore_append {front : List α} (outside : ∀ c ∈ front, ¬kind c) (rest : List α) :
    cutBefore kind (front ++ rest) =
      (front ++ (cutBefore kind rest).1, (cutBefore kind rest).2) := by
  induction front with
  | nil => rfl
  | cons c front ih =>
    obtain ⟨first, outside⟩ := List.forall_mem_cons.mp outside
    simp only [List.cons_append, cutBefore, ih outside, if_neg first]

theorem cutBefore_ofBlocks {blocks : List (α × List α)} (headed : ∀ b ∈ blocks, Headed kind b) :
    cutBefore kind (ofBlocks blocks) = ([], blocks) := by
  induction blocks with
  | nil => rfl
  | cons b rest ih =>
    obtain ⟨⟨opens, held⟩, headed⟩ := List.forall_mem_cons.mp headed
    change cutBefore kind (b.1 :: (b.2 ++ ofBlocks rest)) = _
    simp only [cutBefore, cutBefore_append held, ih headed, List.append_nil, if_pos opens]

theorem filter_ofBlocks {blocks : List (α × List α)} (headed : ∀ b ∈ blocks, Headed kind b) :
    (ofBlocks blocks).filter (fun c => kind c) = blocks.map Prod.fst := by
  induction blocks with
  | nil => rfl
  | cons b rest ih =>
    obtain ⟨⟨opens, held⟩, headed⟩ := List.forall_mem_cons.mp headed
    have none : b.2.filter (fun c => kind c) = [] := List.filter_eq_nil_iff.mpr (by simpa using held)
    change (b.1 :: (b.2 ++ ofBlocks rest)).filter (fun c => kind c) = _
    rw [List.filter_cons_of_pos (by simpa using opens), List.filter_append, none, ih headed]
    rfl

end

/-- A way to write members between two equal marks: no member is written as the beginning of another,
and one that is written with the mark in front has the mark twice. -/
structure Encloses {β : Type} (mark : α) (code : β → List α) : Prop where
  cut : ∀ {c d : β} {s t : List α}, code c ++ s = code d ++ t → c = d ∧ s = t
  twice : ∀ {c : β} {s t : List α}, code c ++ s = mark :: t → t.head? = some mark

/-- Where no mark follows the closing one, it tells where the enclosed part ends. -/
theorem Encloses.unique {β : Type} {mark : α} {code : β → List α} (encloses : Encloses mark code)
    {a b : List β} {x y : List α} (hx : x.head? ≠ some mark) (hy : y.head? ≠ some mark)
    (same : a.flatMap code ++ mark :: x = b.flatMap code ++ mark :: y) : a = b ∧ x = y := by
  induction a generalizing b with
  | nil =>
    cases b with
    | nil => exact ⟨rfl, (List.cons.inj same).2⟩
    | cons d b =>
      rw [List.flatMap_cons, List.append_assoc] at same
      exact absurd (encloses.twice same.symm) hx
  | cons c a ih =>
    rw [List.flatMap_cons, List.append_assoc] at same
    cases b with
    | nil => exact absurd (encloses.twice same) hy
    | cons d b =>
      rw [List.flatMap_cons, List.append_assoc] at same
      obtain ⟨rfl, rest⟩ := encloses.cut same
      obtain ⟨rfl, behind⟩ := ih rest
      exact ⟨rfl, behind⟩

end LiteralGrammar.Text
