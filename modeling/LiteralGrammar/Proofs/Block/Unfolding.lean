import LiteralGrammar.Proofs.Block.Walk

/-!
A graph unfolds to a tree below a slot when no container on the way down is open already. The graph
of a tree unfolds to it, since the containers around a place are held by shorter ways.
-/
namespace LiteralGrammar.Block

variable {ν : Type}

mutual

/-- `opened` are the containers around the slot. -/
def Unfolds (g : Graph ν) (opened : List ν) (slot : Slot ν) : Tree → Prop
  | .scalar s => slot = .scalar s
  | .foreign typeName => slot = .foreign typeName
  | .sequence typeName items => ∃ id slots, slot = .held id ∧ id ∉ opened ∧
    g id = .sequence typeName slots ∧ ItemsUnfold g (id :: opened) slots items
  | .mapping typeName entries => ∃ id slots, slot = .held id ∧ id ∉ opened ∧
    g id = .mapping typeName slots ∧ EntriesUnfold g (id :: opened) slots entries

def ItemsUnfold (g : Graph ν) (opened : List ν) : List (Slot ν) → List Tree → Prop
  | [], [] => True
  | slot :: slots, t :: rest => Unfolds g opened slot t ∧ ItemsUnfold g opened slots rest
  | _, _ => False

def EntriesUnfold (g : Graph ν) (opened : List ν) :
    List (Key × Slot ν) → List (Key × Tree) → Prop
  | [], [] => True
  | (key, slot) :: slots, (key', t) :: rest =>
    key = key' ∧ Unfolds g opened slot t ∧ EntriesUnfold g opened slots rest
  | _, _ => False

end

variable {g : Graph ν}

theorem isContainer_of_unfolds {opened : List ν} {slot : Slot ν} {t : Tree}
    (unfold : Unfolds g opened slot t) : g.isContainer slot = t.isContainer := by
  cases t with
  | scalar => cases unfold; rfl
  | foreign => cases unfold; rfl
  | sequence => obtain ⟨_, _, rfl, _⟩ := unfold; rfl
  | mapping => obtain ⟨_, _, rfl, _⟩ := unfold; rfl

theorem isNested_of_unfolds {opened : List ν} {slot : Slot ν} {t : Tree}
    (unfold : Unfolds g opened slot t) : g.isNested slot = t.isNested := by
  cases t with
  | scalar => cases unfold; rfl
  | foreign => cases unfold; rfl
  | sequence =>
    obtain ⟨id, _, rfl, _, held, _⟩ := unfold
    simp only [Graph.isNested, held, Tree.isNested]
  | mapping _ entries =>
    obtain ⟨id, slots, rfl, _, held, below⟩ := unfold
    simp only [Graph.isNested, held, Tree.isNested]
    cases slots <;> cases entries <;> first | rfl | exact below.elim

theorem any_isContainer_of_unfold {opened : List ν} {slots : List (Slot ν)} {items : List Tree}
    (unfold : ItemsUnfold g opened slots items) :
    slots.any g.isContainer = items.any Tree.isContainer := by
  induction items generalizing slots with
  | nil =>
    match slots, unfold with
    | [], _ => rfl
  | cons t rest ih =>
    match slots, unfold with
    | slot :: slots, ⟨first, later⟩ =>
      rw [List.any_cons, List.any_cons, isContainer_of_unfolds first, ih later]

namespace Tree

theorem find?_append (t : Tree) (way rest : List Nat) :
    t.find? (way ++ rest) = (t.find? way).bind (·.find? rest) := by
  induction way generalizing t with
  | nil => rfl
  | cons i way ih =>
    rw [List.cons_append, find?, find?]
    cases t.children[i]? with
    | none => rfl
    | some child => exact ih child

theorem find?_child {root t : Tree} {way : List Nat} (found : root.find? way = some t) (i : Nat) :
    root.find? (way ++ [i]) = t.children[i]? := by
  rw [find?_append, found, Option.bind_some, find?]
  cases t.children[i]? <;> rfl

theorem graph_of_find? {root t : Tree} {way : List Nat} (found : root.find? way = some t) :
    root.graph way = t.container way := by
  rw [graph, found]

theorem itemsUnfold_graph {root : Tree} {way : List Nat} {opened : List (List Nat)}
    {items : List Tree} (each : ∀ t ∈ items, ∀ way', root.find? way' = some t →
      way'.length = way.length + 1 → Unfolds root.graph opened (t.slot way') t) (i : Nat)
    (found : ∀ j, ∀ t ∈ items[j]?, root.find? (way ++ [i + j]) = some t) :
    ItemsUnfold root.graph opened ((items.zipIdx i).map fun p => p.1.slot (way ++ [p.2])) items := by
  induction items generalizing i with
  | nil => trivial
  | cons t rest ih =>
    have each := List.forall_mem_cons.mp each
    refine ⟨each.1 _ (found 0 t rfl) (by simp), ih each.2 (i + 1) fun j u member => ?_⟩
    have next := found (j + 1) u member
    rwa [show i + (j + 1) = i + 1 + j by omega] at next

theorem entriesUnfold_graph {root : Tree} {way : List Nat} {opened : List (List Nat)}
    {entries : List (Key × Tree)} (each : ∀ e ∈ entries, ∀ way', root.find? way' = some e.2 →
      way'.length = way.length + 1 → Unfolds root.graph opened (e.2.slot way') e.2) (i : Nat)
    (found : ∀ j, ∀ e ∈ entries[j]?, root.find? (way ++ [i + j]) = some e.2) :
    EntriesUnfold root.graph opened
      ((entries.zipIdx i).map fun p => (p.1.1, p.1.2.slot (way ++ [p.2]))) entries := by
  induction entries generalizing i with
  | nil => trivial
  | cons e rest ih =>
    have each := List.forall_mem_cons.mp each
    refine ⟨rfl, each.1 _ (found 0 e rfl) (by simp), ih each.2 (i + 1) fun j u member => ?_⟩
    have next := found (j + 1) u member
    rwa [show i + (j + 1) = i + 1 + j by omega] at next

theorem shorter_cons {way way' : List Nat} {opened : List (List Nat)}
    (around : ∀ a ∈ opened, a.length < way.length) (longer : way'.length = way.length + 1) :
    ∀ a ∈ way :: opened, a.length < way'.length := by
  intro a inside
  rcases List.mem_cons.mp inside with rfl | outer
  · omega
  · have := around a outer
    omega

theorem unfolds_graph (root t : Tree) (way : List Nat) (opened : List (List Nat))
    (found : root.find? way = some t) (around : ∀ a ∈ opened, a.length < way.length) :
    Unfolds root.graph opened (t.slot way) t := by
  induction t generalizing way opened with
  | scalar s => rfl
  | foreign typeName => rfl
  | sequence typeName items ih =>
    have fresh : way ∉ opened := fun member => Nat.lt_irrefl _ (around way member)
    refine ⟨way, _, rfl, fresh, graph_of_find? found, itemsUnfold_graph ?_ 0 fun j t member => ?_⟩
    · intro t member way' found' longer
      exact ih t member way' _ found' (shorter_cons around longer)
    · rw [Nat.zero_add, find?_child found]
      exact member
  | mapping typeName entries ih =>
    have fresh : way ∉ opened := fun member => Nat.lt_irrefl _ (around way member)
    refine ⟨way, _, rfl, fresh, graph_of_find? found, entriesUnfold_graph ?_ 0 fun j e member => ?_⟩
    · intro e member way' found' longer
      exact ih e member way' _ found' (shorter_cons around longer)
    · rw [Nat.zero_add, find?_child found]
      simp only [children, List.getElem?_map]
      rw [Option.mem_def.mp member]
      rfl

end Tree

end LiteralGrammar.Block
