import LiteralGrammar.Proofs.Block.GraphWalk
import Mathlib.Data.Fintype.Card
import Mathlib.Data.Set.Finite.Basic
import Mathlib.Logic.Relation

/-!
Shared and cyclic values. Where no container is inside itself the graph unfolds to one tree and is
written as that tree is; where some container is, the walk ends with a fault. The fault is that of
the cycle exactly when coming back to a container that is still open precedes every other fault.
-/
namespace LiteralGrammar.Block

variable {ν : Type}

def Container.slots : Container ν → List (Slot ν)
  | .sequence _ items => items
  | .mapping _ entries => entries.map Prod.snd

namespace Graph

def Holds (g : Graph ν) (a b : ν) : Prop := .held b ∈ (g a).slots

instance [DecidableEq ν] (g : Graph ν) (a b : ν) : Decidable (g.Holds a b) := by
  unfold Holds; infer_instance

def Reaches (g : Graph ν) (root : Slot ν) (id : ν) : Prop :=
  ∃ top, root = .held top ∧ Relation.ReflTransGen g.Holds top id

def IsCyclic (g : Graph ν) (id : ν) : Prop := Relation.TransGen g.Holds id id

end Graph

def Visit.start (root : Slot ν) : Visit ν := ⟨[], [], root⟩

variable {g : Graph ν}

theorem itemsUnfold_unique {opened : List ν} {slots : List (Slot ν)} {items : List Tree}
    (each : ∀ t ∈ items, ∀ slot u, Unfolds g opened slot t → Unfolds g opened slot u → u = t)
    (below : ItemsUnfold g opened slots items) {items' : List Tree}
    (below' : ItemsUnfold g opened slots items') : items' = items := by
  induction items generalizing slots items' with
  | nil =>
    match slots, items', below, below' with
    | [], [], _, _ => rfl
  | cons t rest ih =>
    match slots, items', below, below' with
    | slot :: slots, u :: rest', ⟨first, later⟩, ⟨first', later'⟩ =>
      have each := List.forall_mem_cons.mp each
      rw [each.1 slot u first first', ih each.2 later later']

theorem entriesUnfold_unique {opened : List ν} {slots : List (Key × Slot ν)}
    {entries : List (Key × Tree)}
    (each : ∀ e ∈ entries, ∀ slot u, Unfolds g opened slot e.2 → Unfolds g opened slot u → u = e.2)
    (below : EntriesUnfold g opened slots entries) {entries' : List (Key × Tree)}
    (below' : EntriesUnfold g opened slots entries') : entries' = entries := by
  induction entries generalizing slots entries' with
  | nil =>
    match slots, entries', below, below' with
    | [], [], _, _ => rfl
  | cons e rest ih =>
    match slots, e, entries', below, below' with
    | (_, slot) :: slots, (_, t), (_, u) :: rest', ⟨rfl, first, later⟩, ⟨rfl, first', later'⟩ =>
      have each := List.forall_mem_cons.mp each
      rw [each.1 slot u first first', ih each.2 later later']

theorem eq_of_unfolds_scalar {opened : List ν} {s : Scalar} {t : Tree}
    (unfold : Unfolds g opened (.scalar s) t) : t = .scalar s := by
  cases t with
  | scalar => cases unfold; rfl
  | foreign => cases unfold
  | sequence => obtain ⟨_, _, same, _⟩ := unfold; cases same
  | mapping => obtain ⟨_, _, same, _⟩ := unfold; cases same

theorem eq_of_unfolds_foreign {opened : List ν} {typeName : Text} {t : Tree}
    (unfold : Unfolds g opened (.foreign typeName) t) : t = .foreign typeName := by
  cases t with
  | scalar => cases unfold
  | foreign => cases unfold; rfl
  | sequence => obtain ⟨_, _, same, _⟩ := unfold; cases same
  | mapping => obtain ⟨_, _, same, _⟩ := unfold; cases same

theorem unfolds_sequence {opened : List ν} {id : ν} {typeName : Text} {slots : List (Slot ν)}
    {t : Tree} (held : g id = .sequence typeName slots) (unfold : Unfolds g opened (.held id) t) :
    ∃ items, t = .sequence typeName items ∧ ItemsUnfold g (id :: opened) slots items := by
  cases t with
  | scalar => cases unfold
  | foreign => cases unfold
  | sequence =>
    obtain ⟨_, _, same, -, held', below⟩ := unfold
    cases same
    cases held.symm.trans held'
    exact ⟨_, rfl, below⟩
  | mapping =>
    obtain ⟨_, _, same, -, held', -⟩ := unfold
    cases same
    cases held.symm.trans held'

theorem unfolds_mapping {opened : List ν} {id : ν} {typeName : Text} {slots : List (Key × Slot ν)}
    {t : Tree} (held : g id = .mapping typeName slots) (unfold : Unfolds g opened (.held id) t) :
    ∃ entries, t = .mapping typeName entries ∧ EntriesUnfold g (id :: opened) slots entries := by
  cases t with
  | scalar => cases unfold
  | foreign => cases unfold
  | sequence =>
    obtain ⟨_, _, same, -, held', -⟩ := unfold
    cases same
    cases held.symm.trans held'
  | mapping =>
    obtain ⟨_, _, same, -, held', below⟩ := unfold
    cases same
    cases held.symm.trans held'
    exact ⟨_, rfl, below⟩

theorem unfolds_unique {opened : List ν} {slot : Slot ν} {t u : Tree}
    (unfold : Unfolds g opened slot t) (unfold' : Unfolds g opened slot u) : u = t := by
  induction t generalizing opened slot u with
  | scalar s =>
    cases unfold
    exact eq_of_unfolds_scalar unfold'
  | foreign typeName =>
    cases unfold
    exact eq_of_unfolds_foreign unfold'
  | sequence typeName items ih =>
    obtain ⟨id, slots, rfl, -, held, below⟩ := unfold
    obtain ⟨items', rfl, below'⟩ := unfolds_sequence held unfold'
    rw [itemsUnfold_unique (fun t member _ _ => ih t member) below below']
  | mapping typeName entries ih =>
    obtain ⟨id, slots, rfl, -, held, below⟩ := unfold
    obtain ⟨entries', rfl, below'⟩ := unfolds_mapping held unfold'
    rw [entriesUnfold_unique (fun e member _ _ => ih e member) below below']

theorem exists_items {opened : List ν} {slots : List (Slot ν)}
    (each : ∀ slot ∈ slots, ∃ t, Unfolds g opened slot t) :
    ∃ items, ItemsUnfold g opened slots items := by
  induction slots with
  | nil => exact ⟨[], trivial⟩
  | cons slot slots ih =>
    obtain ⟨⟨t, first⟩, each⟩ := List.forall_mem_cons.mp each
    obtain ⟨rest, later⟩ := ih each
    exact ⟨t :: rest, first, later⟩

theorem exists_entries {opened : List ν} {slots : List (Key × Slot ν)}
    (each : ∀ slot ∈ slots.map Prod.snd, ∃ t, Unfolds g opened slot t) :
    ∃ entries, EntriesUnfold g opened slots entries := by
  induction slots with
  | nil => exact ⟨[], trivial⟩
  | cons e slots ih =>
    obtain ⟨⟨t, first⟩, each⟩ := List.forall_mem_cons.mp each
    obtain ⟨rest, later⟩ := ih each
    exact ⟨(e.1, t) :: rest, rfl, first, later⟩

theorem exists_unfolding {opened : List ν} {id : ν} (fresh : id ∉ opened)
    (each : ∀ slot ∈ (g id).slots, ∃ t, Unfolds g (id :: opened) slot t) :
    ∃ t, Unfolds g opened (.held id) t := by
  cases held : g id with
  | sequence typeName slots =>
    rw [held] at each
    obtain ⟨items, below⟩ := exists_items each
    exact ⟨.sequence typeName items, id, slots, rfl, fresh, held, below⟩
  | mapping typeName slots =>
    rw [held] at each
    obtain ⟨entries, below⟩ := exists_entries each
    exact ⟨.mapping typeName entries, id, slots, rfl, fresh, held, below⟩

theorem exists_unfolding_of_held {opened : List ν} {slot : Slot ν}
    (below : ∀ id, slot = .held id → ∃ t, Unfolds g opened (.held id) t) :
    ∃ t, Unfolds g opened slot t := by
  cases slot with
  | scalar s => exact ⟨.scalar s, rfl⟩
  | foreign typeName => exact ⟨.foreign typeName, rfl⟩
  | held id => exact below id rfl

/-- Going down never ends in a circle, and there are finitely many containers to come to. -/
theorem wellFounded_holds {root : Slot ν} (finite : {id | g.Reaches root id}.Finite)
    (acyclic : ∀ id, g.Reaches root id → ¬g.IsCyclic id) :
    WellFounded fun a b : {id // g.Reaches root id} => Relation.TransGen g.Holds b.1 a.1 := by
  have : Finite {id // g.Reaches root id} := finite.to_subtype
  let inside (a b : {id // g.Reaches root id}) : Prop := Relation.TransGen g.Holds b.1 a.1
  have : IsTrans _ inside := ⟨fun _ _ _ first second => second.trans first⟩
  have : Std.Irrefl inside := ⟨fun a cycle => acyclic a.1 a.2 cycle⟩
  exact Finite.wellFounded_of_trans_of_irrefl inside

/-- The containers that are open all hold the one that comes next. -/
theorem unfolds_of_acyclic {root : Slot ν} (finite : {id | g.Reaches root id}.Finite)
    (acyclic : ∀ id, g.Reaches root id → ¬g.IsCyclic id) : ∃ t, Unfolds g [] root t := by
  have below : ∀ (a : {id // g.Reaches root id}) (opened : List ν),
      (∀ b ∈ opened, Relation.TransGen g.Holds b a.1) → ∃ t, Unfolds g opened (.held a.1) t := by
    intro a
    induction a using (wellFounded_holds finite acyclic).induction with
    | h a ih =>
      intro opened above
      have fresh : a.1 ∉ opened := fun member => acyclic a.1 a.2 (above a.1 member)
      refine exists_unfolding fresh ?_
      intro slot member
      refine exists_unfolding_of_held ?_
      rintro id rfl
      obtain ⟨top, at_root, down⟩ := a.2
      have holds : g.Holds a.1 id := member
      refine ih ⟨id, top, at_root, down.tail holds⟩ (.single holds) (a.1 :: opened) ?_
      exact List.forall_mem_cons.mpr ⟨.single holds, fun b outer => (above b outer).tail holds⟩
  refine exists_unfolding_of_held fun id at_root => ?_
  exact below ⟨id, id, at_root, .refl⟩ [] (by simp)

def Sound (g : Graph ν) (r : Runtime) (limit : Int) (v : Visit ν) : Prop :=
  ∀ way f, ¬FaultAt g r limit v way f

variable {r : Runtime} {limit : Int}

theorem sound_of_next {v next : Visit ν} {i : Nat} (sound : Sound g r limit v)
    (step : Next g r v i next) : Sound g r limit next :=
  fun way f at_fault => sound (i :: way) f (faultAt_of_next step at_fault)

theorem next_of_sound {around : List ν} {place : Place} {id : ν}
    (sound : Sound g r limit ⟨around, place, .held id⟩) {slot : Slot ν} (member : slot ∈ (g id).slots) :
    ∃ place', Sound g r limit ⟨id :: around, place', slot⟩ := by
  cases held : g id with
  | sequence typeName items =>
    rw [held] at member
    obtain ⟨i, found⟩ := List.mem_iff_getElem?.mp member
    exact ⟨_, sound_of_next sound (.item held found)⟩
  | mapping typeName entries =>
    rw [held] at member
    obtain ⟨⟨key, _⟩, inside, rfl⟩ := List.mem_map.mp member
    obtain ⟨i, found⟩ := List.mem_iff_getElem?.mp inside
    cases named : key.fault? r place with
    | some refused => exact absurd (faultAt_of_refused held found named) (sound [i] _)
    | none => exact ⟨_, sound_of_next sound (.entry held found named)⟩

theorem sound_of_reaches {around : List ν} {place : Place} {a b : ν}
    (sound : Sound g r limit ⟨around, place, .held a⟩) (down : Relation.ReflTransGen g.Holds a b) :
    ∃ around' place', around ⊆ around' ∧ Sound g r limit ⟨around', place', .held b⟩ := by
  induction down with
  | refl => exact ⟨around, place, List.Subset.refl _, sound⟩
  | tail _ holds ih =>
    obtain ⟨around', place', within, sound'⟩ := ih
    obtain ⟨place'', sound''⟩ := next_of_sound sound' holds
    exact ⟨_, place'', fun a member => .tail _ (within member), sound''⟩

/-- Round a cycle one comes back to a container that is open. -/
theorem not_sound_of_cyclic {root : Slot ν} {id : ν} (reaches : g.Reaches root id)
    (cyclic : g.IsCyclic id) : ¬Sound g r limit (.start root) := by
  intro sound
  obtain ⟨top, rfl, down⟩ := reaches
  obtain ⟨around, place, -, sound⟩ := sound_of_reaches sound down
  obtain ⟨next, holds, back⟩ := Relation.TransGen.head'_iff.mp cyclic
  obtain ⟨place, sound⟩ := next_of_sound sound holds
  obtain ⟨around', place', within, sound⟩ := sound_of_reaches sound back
  exact sound [] _ (.cyclic rfl (within List.mem_cons_self))

/-- A sound value unfolds: no container in it is open already, and the limit bounds its depth. -/
theorem unfolds_of_sound (room : Nat) {around : List ν} {place : Place}
    {slot : Slot ν} (enough : (limit - around.length).toNat ≤ room)
    (sound : Sound g r limit ⟨around, place, slot⟩) : ∃ t, Unfolds g around slot t := by
  induction room generalizing around place slot with
  | zero =>
    refine exists_unfolding_of_held ?_
    rintro id rfl
    have fresh : id ∉ around := fun inside => sound [] _ (.cyclic rfl inside)
    exact absurd (.tooDeep rfl fresh (by omega)) (sound [] _)
  | succ room ih =>
    refine exists_unfolding_of_held ?_
    rintro id rfl
    have fresh : id ∉ around := fun inside => sound [] _ (.cyclic rfl inside)
    refine exists_unfolding fresh ?_
    intro slot member
    obtain ⟨place', sound⟩ := next_of_sound sound member
    exact ih (by rw [List.length_cons]; omega) sound

theorem Scalar.fault?_ne_cyclic (s : Scalar) (r : Runtime) (typeName : Text) (place : Place) :
    s.fault? r ≠ some (.cyclic typeName place) := by
  cases s <;> simp [fault?, Runtime.fault?]

theorem Key.fault?_ne_cyclic (key : Key) (r : Runtime) (around : Place) (typeName : Text)
    (place : Place) : key.fault? r around ≠ some (.cyclic typeName place) := by
  cases key <;> simp [fault?, Runtime.fault?]

namespace Writer

variable [DecidableEq ν] (w : Writer)

def writeFrom (g : Graph ν) (root : Slot ν) (room : Nat) : Except Fault Text :=
  ((w.writeWithin g room .block [] root).run ⟨w.guard, []⟩).1

theorem serialize_eq_writeFrom (root : Slot ν) : w.serialize g root = w.writeFrom g root w.room := by
  rw [serialize, write, Writing.run_bind, ← w.room_start (ν := ν)]
  rfl

theorem writeFrom_first (g : Graph ν) (root : Slot ν) {room : Nat} (enough : w.room ≤ room) :
    ∃ fault text, w.writeFrom g root room = orFault fault text ∧
      IsFirst (FaultAt g w.runtime w.limit (.start root)) fault := by
  obtain ⟨fault, text, ran, first⟩ :=
    meets_writeWithin w g room ⟨w.guard, []⟩ (w.room_start.trans_le enough) rfl .block [] root
  exact ⟨fault, text, congrArg Prod.fst ran, first⟩

theorem writeFrom_of_unfolds {root : Slot ν} {t : Tree} (unfold : Unfolds g [] root t) {room : Nat}
    (enough : w.room ≤ room) : w.writeFrom g root room = w.serializeTree t := by
  have ran := run_writeWithin w g t room ⟨w.guard, []⟩ (w.room_start.trans_le enough) .block []
    root unfold
  rw [serializeTree_eq]
  exact congrArg Prod.fst ran

theorem serialize_of_unfolds {root : Slot ν} {t : Tree} (unfold : Unfolds g [] root t) :
    w.serialize g root = w.serializeTree t := by
  rw [serialize_eq_writeFrom, w.writeFrom_of_unfolds unfold (Nat.le_refl _)]

theorem serialize_eq_error_iff (g : Graph ν) (root : Slot ν) (f : Fault) :
    w.serialize g root = .error f ↔ IsFirst (FaultAt g w.runtime w.limit (.start root)) (some f) := by
  obtain ⟨fault, text, wrote, first⟩ := w.writeFrom_first g root (Nat.le_refl _)
  rw [serialize_eq_writeFrom, wrote]
  constructor
  · intro failed
    cases fault with
    | none => cases failed
    | some f' => cases failed; exact first
  · intro first'
    rw [first_unique first first']
    rfl

theorem writeFrom_eq_serialize (g : Graph ν) (root : Slot ν) {room : Nat} (enough : w.room ≤ room) :
    w.writeFrom g root room = w.serialize g root := by
  obtain ⟨fault, text, wrote, first⟩ := w.writeFrom_first g root enough
  cases fault with
  | some f => rw [wrote, (w.serialize_eq_error_iff g root f).mpr first]; rfl
  | none =>
    have sound : Sound g w.runtime w.limit ⟨[], [], root⟩ := first
    obtain ⟨t, unfold⟩ := unfolds_of_sound _ (Nat.le_refl _) sound
    rw [w.writeFrom_of_unfolds unfold enough, w.serialize_of_unfolds unfold]

theorem serialize_eq_cyclic_iff (g : Graph ν) (root : Slot ν) (typeName : Text) (place : Place) :
    w.serialize g root = .error (.cyclic typeName place) ↔
      ∃ way around id, Leads g w.runtime (.start root) way ⟨around, place, .held id⟩ ∧ id ∈ around ∧
        (g id).typeName = typeName ∧ ∀ way' f, FaultAt g w.runtime w.limit (.start root) way' f →
          (way' = way ∧ f = .cyclic typeName place) ∨ Precedes way way' := by
  rw [serialize_eq_error_iff]
  constructor
  · intro ⟨way, at_fault, least⟩
    cases at_fault with
    | scalar _ refused => exact (Scalar.fault?_ne_cyclic _ _ _ _ refused).elim
    | cyclic leads inside => exact ⟨way, _, _, leads, inside, rfl, least⟩
    | key _ _ _ refused => exact (Key.fault?_ne_cyclic _ _ _ _ _ refused).elim
  · intro ⟨way, around, id, leads, inside, name, least⟩
    exact ⟨way, name ▸ .cyclic leads inside, least⟩

/-- The walk ends, and any bound from the guard's on gives the same. A value with no container inside
itself unfolds to one tree, and is written, or refused, as that tree is. One with a cycle has no
text. The fault is a cycle exactly when the first faulty way comes back to a container that is open,
and it names that place and that container. -/
theorem sharing_unseen_cycles_refused (g : Graph ν) (root : Slot ν) :
    (∀ room, w.room ≤ room → w.writeFrom g root room = w.serialize g root) ∧
    ({id | g.Reaches root id}.Finite → (∀ id, g.Reaches root id → ¬g.IsCyclic id) →
      ∃ t, (∀ u, Unfolds g [] root u ↔ u = t) ∧ w.serialize g root = w.serializeTree t) ∧
    (∀ id, g.Reaches root id → g.IsCyclic id → ∃ fault, w.serialize g root = .error fault) ∧
    (∀ fault, w.serialize g root = .error fault ↔
      IsFirst (FaultAt g w.runtime w.limit (.start root)) (some fault)) ∧
    (∀ typeName place, w.serialize g root = .error (.cyclic typeName place) ↔
      ∃ way around id, Leads g w.runtime (.start root) way ⟨around, place, .held id⟩ ∧ id ∈ around ∧
        (g id).typeName = typeName ∧ ∀ way' f, FaultAt g w.runtime w.limit (.start root) way' f →
          (way' = way ∧ f = .cyclic typeName place) ∨ Precedes way way') := by
  refine ⟨fun room enough => w.writeFrom_eq_serialize g root enough, ?_, ?_,
    w.serialize_eq_error_iff g root, w.serialize_eq_cyclic_iff g root⟩
  · intro finite acyclic
    obtain ⟨t, unfold⟩ := unfolds_of_acyclic finite acyclic
    refine ⟨t, fun u => ⟨unfolds_unique unfold, fun same => same ▸ unfold⟩, ?_⟩
    exact w.serialize_of_unfolds unfold
  · intro id reaches cyclic
    obtain ⟨fault, text, wrote, first⟩ := w.writeFrom_first g root (Nat.le_refl _)
    cases fault with
    | none => exact absurd first (not_sound_of_cyclic reaches cyclic)
    | some f => exact ⟨f, by rw [serialize_eq_writeFrom, wrote]; rfl⟩

theorem sharing_unseen_cycles_refused_twice_held :
    let shared : Graph Bool := fun inner =>
      if inner then .mapping "dict" [(.text "include", .scalar (.text "#x"))]
      else .sequence "list" [.held true, .held true]
    let looped : Graph Bool := fun inner =>
      if inner then .sequence "tuple" [.held false]
      else .mapping "dict" [(.text "a", .held true), (.truth true, .scalar .null)]
    let w : Writer := { maxDepth := 2, indentWidth := 2 }
    w.writeFrom shared (.held false) 9 = w.serialize shared (.held false) ∧
    (∃ t, (∀ u, Unfolds shared [] (.held false) u ↔ u = t) ∧
      w.serialize shared (.held false) = w.serializeTree t) ∧
    (∃ fault, w.serialize looped (.held false) = .error fault) ∧
    w.serialize looped (.held false) = .error (.cyclic "dict" [.key "a", .item 0]) := by
  intro shared looped w
  have holds : ∀ a b, shared.Holds a b → a = false ∧ b = true := by decide
  have down : ∀ a b, Relation.TransGen shared.Holds a b → a = false ∧ b = true := by
    intro a b chain
    induction chain with
    | single step => exact holds _ _ step
    | tail _ step ih => exact ⟨ih.1, (holds _ _ step).2⟩
  have acyclic : ∀ id, shared.Reaches (.held false) id → ¬shared.IsCyclic id := by
    intro id _ cycle
    obtain ⟨rfl, inner⟩ := down id id cycle
    cases inner
  have round : looped.IsCyclic false := .tail (.single (b := true) (by decide)) (by decide)
  have of_shared := sharing_unseen_cycles_refused w shared (.held false)
  have of_looped := sharing_unseen_cycles_refused w looped (.held false)
  exact ⟨of_shared.1 9 (by decide), of_shared.2.1 (Set.toFinite _) acyclic,
    of_looped.2.2.1 false ⟨false, rfl, .refl⟩ round, rfl⟩

end Writer

end LiteralGrammar.Block
