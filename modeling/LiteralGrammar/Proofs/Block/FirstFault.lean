import LiteralGrammar.Block.Writer
import Mathlib.Data.List.Lex

/-!
Faults of a value graph, each with its way: the index of the item or entry to take at each step from
the root. Ways in lexicographic order are in document order, so the first fault is the one whose way
precedes those of all others. Nothing here walks, and ways may go round a cycle for ever.
-/
namespace LiteralGrammar.Block

/-- A container precedes what it holds, and what it holds first precedes the rest. -/
def Precedes (way way' : List Nat) : Prop := List.Lex (· < ·) way way'

def IsFirst (faulty : List Nat → Fault → Prop) : Option Fault → Prop
  | none => ∀ way f, ¬faulty way f
  | some f => ∃ way, faulty way f ∧
      ∀ way' f', faulty way' f' → (way' = way ∧ f' = f) ∨ Precedes way way'

theorem not_precedes_back {way way' : List Nat} (before : Precedes way way') :
    ¬Precedes way' way := asymm_of (List.Lex (· < ·)) before

theorem first_unique {faulty : List Nat → Fault → Prop} {o o' : Option Fault}
    (first : IsFirst faulty o) (first' : IsFirst faulty o') : o = o' := by
  cases o with
  | none =>
    cases o' with
    | none => rfl
    | some f' =>
      obtain ⟨way, at_fault, -⟩ := first'
      exact absurd at_fault (first way f')
  | some f =>
    obtain ⟨way, at_fault, least⟩ := first
    cases o' with
    | none => exact absurd at_fault (first' way f)
    | some f' =>
      obtain ⟨way', at_fault', least'⟩ := first'
      rcases least way' f' at_fault' with ⟨-, same⟩ | before
      · rw [same]
      · rcases least' way f at_fault with ⟨-, same⟩ | back
        · rw [same]
        · exact absurd back (not_precedes_back before)

theorem first_of_root {faulty : List Nat → Fault → Prop} {f : Fault} (at_root : faulty [] f)
    (only : ∀ f', faulty [] f' → f' = f) : IsFirst faulty (some f) := by
  refine ⟨[], at_root, ?_⟩
  intro way f' at_fault
  cases way with
  | nil => exact .inl ⟨rfl, only f' at_fault⟩
  | cons i way => exact .inr .nil

def Below (faulty : List Nat → Fault → Prop) (start : Nat) (way : List Nat) (f : Fault) : Prop :=
  (∃ i ∈ way.head?, start ≤ i) ∧ faulty way f

theorem first_of_children {faulty : List Nat → Fault → Prop} {o : Option Fault}
    (root : ∀ f, ¬faulty [] f) (first : IsFirst (Below faulty 0) o) : IsFirst faulty o := by
  have below : ∀ way f, faulty way f → Below faulty 0 way f := by
    intro way f at_fault
    cases way with
    | nil => exact absurd at_fault (root f)
    | cons i way => exact ⟨⟨i, rfl, Nat.zero_le i⟩, at_fault⟩
  cases o with
  | none => exact fun way f at_fault => first way f (below way f at_fault)
  | some f =>
    obtain ⟨way, at_fault, least⟩ := first
    exact ⟨way, at_fault.2, fun way' f' faulty' => least way' f' (below way' f' faulty')⟩

theorem not_below {faulty : List Nat → Fault → Prop} {start : Nat}
    (sound : ∀ i way f, start ≤ i → ¬faulty (i :: way) f) (way : List Nat) (f : Fault) :
    ¬Below faulty start way f := by
  intro ⟨⟨i, head, bound⟩, at_fault⟩
  obtain ⟨way, rfl⟩ := List.head?_eq_some_iff.mp head
  exact sound i way f bound at_fault

theorem first_cons {faulty : List Nat → Fault → Prop} {i : Nat} {o o' : Option Fault}
    (child : IsFirst (fun way f => faulty (i :: way) f) o)
    (later : IsFirst (Below faulty (i + 1)) o') : IsFirst (Below faulty i) (o.or o') := by
  cases o with
  | some f =>
    obtain ⟨way, at_fault, least⟩ := child
    refine ⟨i :: way, ⟨⟨i, rfl, Nat.le_refl i⟩, at_fault⟩, ?_⟩
    intro way' f' ⟨⟨j, head, bound⟩, at_fault'⟩
    obtain ⟨way', rfl⟩ := List.head?_eq_some_iff.mp head
    rcases Nat.lt_or_eq_of_le bound with less | rfl
    · exact .inr (.rel less)
    · rcases least way' f' at_fault' with ⟨rfl, same⟩ | before
      · exact .inl ⟨rfl, same⟩
      · exact .inr (.cons before)
  | none =>
    have skip : ∀ way f, Below faulty i way f → Below faulty (i + 1) way f := by
      intro way f ⟨⟨j, head, bound⟩, at_fault⟩
      obtain ⟨way, rfl⟩ := List.head?_eq_some_iff.mp head
      rcases Nat.lt_or_eq_of_le bound with less | rfl
      · exact ⟨⟨j, rfl, less⟩, at_fault⟩
      · exact absurd at_fault (child way f)
    cases o' with
    | none => exact fun way f below => later way f (skip way f below)
    | some f =>
      obtain ⟨way, ⟨⟨j, head, bound⟩, at_fault⟩, least⟩ := later
      exact ⟨way, ⟨⟨j, head, Nat.le_of_succ_le bound⟩, at_fault⟩,
        fun way' f' below => least way' f' (skip way' f' below)⟩

structure Visit (ν : Type) where
  around : List ν
  place : Place
  slot : Slot ν

variable {ν : Type}

/-- A step of a way. A key that cannot be written leads nowhere. -/
inductive Next (g : Graph ν) (r : Runtime) : Visit ν → Nat → Visit ν → Prop where
  | item {around place id typeName items i slot} (held : g id = .sequence typeName items)
    (found : items[i]? = some slot) :
    Next g r ⟨around, place, .held id⟩ i ⟨id :: around, place ++ [.item i], slot⟩
  | entry {around place id typeName entries i} {key : Key} {slot}
    (held : g id = .mapping typeName entries) (found : entries[i]? = some (key, slot))
    (named : key.fault? r place = none) :
    Next g r ⟨around, place, .held id⟩ i ⟨id :: around, place ++ [.key key.name], slot⟩

def Leads (g : Graph ν) (r : Runtime) : Visit ν → List Nat → Visit ν → Prop
  | v, [], v' => v' = v
  | v, i :: way, v' => ∃ next, Next g r v i next ∧ Leads g r next way v'

/-- A container inside itself is cyclic at any depth, and a key is at fault before its value. -/
inductive FaultAt (g : Graph ν) (r : Runtime) (limit : Int) (start : Visit ν) :
    List Nat → Fault → Prop where
  | unsupported {way around place typeName}
    (leads : Leads g r start way ⟨around, place, .foreign typeName⟩) :
    FaultAt g r limit start way (.unsupported typeName place)
  | scalar {way around place} {s : Scalar} {f : Fault}
    (leads : Leads g r start way ⟨around, place, .scalar s⟩) (refused : s.fault? r = some f) :
    FaultAt g r limit start way f
  | cyclic {way around place id} (leads : Leads g r start way ⟨around, place, .held id⟩)
    (inside : id ∈ around) : FaultAt g r limit start way (.cyclic (g id).typeName place)
  | tooDeep {way around place id} (leads : Leads g r start way ⟨around, place, .held id⟩)
    (fresh : id ∉ around) (deep : limit < around.length + 1) :
    FaultAt g r limit start way (.tooDeep limit)
  | key {way around place id typeName entries i} {key : Key} {slot} {f : Fault}
    (leads : Leads g r start way ⟨around, place, .held id⟩)
    (held : g id = .mapping typeName entries) (found : entries[i]? = some (key, slot))
    (refused : key.fault? r place = some f) : FaultAt g r limit start (way ++ [i]) f

def Visit.fault? [DecidableEq ν] (g : Graph ν) (r : Runtime) (limit : Int) (v : Visit ν) :
    Option Fault :=
  match v.slot with
  | .scalar s => s.fault? r
  | .foreign typeName => some (.unsupported typeName v.place)
  | .held id =>
    if id ∈ v.around then some (.cyclic (g id).typeName v.place)
    else if limit < v.around.length + 1 then some (.tooDeep limit)
    else none

variable {g : Graph ν} {r : Runtime} {limit : Int} {v : Visit ν} {i : Nat} {way : List Nat} {f : Fault}

theorem fault?_of_fresh [DecidableEq ν] (g : Graph ν) (r : Runtime) (limit : Int)
    {around : List ν} {id : ν} (fresh : id ∉ around) (place : Place) :
    Visit.fault? g r limit ⟨around, place, .held id⟩ =
      if limit < around.length + 1 then some (.tooDeep limit) else none :=
  if_neg fresh

theorem faultAt_nil_iff [DecidableEq ν] :
    FaultAt g r limit v [] f ↔ v.fault? g r limit = some f := by
  constructor
  · intro at_fault
    generalize empty : ([] : List Nat) = way at at_fault
    cases at_fault with
    | unsupported leads => subst empty; rw [← leads]; rfl
    | scalar leads refused => subst empty; rw [← leads]; exact refused
    | cyclic leads inside => subst empty; rw [← leads]; exact if_pos inside
    | tooDeep leads fresh deep =>
      subst empty
      rw [← leads]
      exact (if_neg fresh).trans (if_pos deep)
    | key => simp at empty
  · intro own
    obtain ⟨around, place, slot⟩ := v
    cases slot with
    | scalar s => exact .scalar rfl own
    | foreign typeName => cases own; exact .unsupported rfl
    | held id =>
      simp only [Visit.fault?] at own
      split at own
      case isTrue inside => cases own; exact .cyclic rfl inside
      case isFalse fresh =>
        split at own
        case isTrue deep => cases own; exact .tooDeep rfl fresh deep
        case isFalse => cases own

theorem first_of_own [DecidableEq ν] (own : v.fault? g r limit = some f) :
    IsFirst (FaultAt g r limit v) (some f) := by
  refine first_of_root (faultAt_nil_iff.mpr own) ?_
  intro f' at_root
  exact Option.some.inj ((faultAt_nil_iff.mp at_root).symm.trans own)

theorem sound_of_own [DecidableEq ν] (own : v.fault? g r limit = none) (f : Fault) :
    ¬FaultAt g r limit v [] f := by
  intro at_root
  exact absurd ((faultAt_nil_iff.mp at_root).symm.trans own) (by simp)

theorem faultAt_of_next {next : Visit ν} (step : Next g r v i next)
    (at_fault : FaultAt g r limit next way f) : FaultAt g r limit v (i :: way) f := by
  cases at_fault with
  | unsupported leads => exact .unsupported ⟨next, step, leads⟩
  | scalar leads refused => exact .scalar ⟨next, step, leads⟩ refused
  | cyclic leads inside => exact .cyclic ⟨next, step, leads⟩ inside
  | tooDeep leads fresh deep => exact .tooDeep ⟨next, step, leads⟩ fresh deep
  | @key way _ _ _ _ _ _ _ _ _ leads held found refused =>
    have at_fault : FaultAt g r limit v ((i :: way) ++ [_]) _ :=
      .key ⟨next, step, leads⟩ held found refused
    exact at_fault

def Refuses (g : Graph ν) (r : Runtime) (v : Visit ν) (i : Nat) (f : Fault) : Prop :=
  ∃ id typeName entries key slot, v.slot = .held id ∧ g id = .mapping typeName entries ∧
    entries[i]? = some (key, slot) ∧ key.fault? r v.place = some f

theorem next_or_refuses (at_fault : FaultAt g r limit v (i :: way) f) :
    (∃ next, Next g r v i next ∧ FaultAt g r limit next way f) ∨ (way = [] ∧ Refuses g r v i f) := by
  generalize taken : i :: way = steps at at_fault
  cases at_fault with
  | unsupported leads =>
    subst taken
    obtain ⟨next, step, leads⟩ := leads
    exact .inl ⟨next, step, .unsupported leads⟩
  | scalar leads refused =>
    subst taken
    obtain ⟨next, step, leads⟩ := leads
    exact .inl ⟨next, step, .scalar leads refused⟩
  | cyclic leads inside =>
    subst taken
    obtain ⟨next, step, leads⟩ := leads
    exact .inl ⟨next, step, .cyclic leads inside⟩
  | tooDeep leads fresh deep =>
    subst taken
    obtain ⟨next, step, leads⟩ := leads
    exact .inl ⟨next, step, .tooDeep leads fresh deep⟩
  | @key front _ _ _ _ _ _ _ _ _ leads held found refused =>
    cases front with
    | nil =>
      obtain ⟨rfl, rfl⟩ := List.cons.inj taken
      rw [← leads]
      exact .inr ⟨rfl, _, _, _, _, _, rfl, held, found, refused⟩
    | cons j front =>
      obtain ⟨rfl, rfl⟩ := List.cons.inj taken
      obtain ⟨next, step, leads⟩ := leads
      exact .inl ⟨next, step, .key leads held found refused⟩

variable {around : List ν} {place : Place} {id : ν} {typeName : Text}

theorem faultAt_of_refused {entries : List (Key × Slot ν)} {key : Key} {slot : Slot ν}
    (held : g id = .mapping typeName entries) (found : entries[i]? = some (key, slot))
    (refused : key.fault? r place = some f) :
    FaultAt g r limit ⟨around, place, .held id⟩ [i] f := by
  have at_fault : FaultAt g r limit ⟨around, place, .held id⟩ ([] ++ [i]) _ :=
    .key rfl held found refused
  exact at_fault

theorem faultAt_item_iff {items : List (Slot ν)} (held : g id = .sequence typeName items) :
    FaultAt g r limit ⟨around, place, .held id⟩ (i :: way) f ↔
      ∃ slot ∈ items[i]?, FaultAt g r limit ⟨id :: around, place ++ [.item i], slot⟩ way f := by
  constructor
  · intro at_fault
    rcases next_or_refuses at_fault with ⟨next, step, at_fault⟩ | ⟨-, refuses⟩
    · cases step with
      | item held' found =>
        cases held.symm.trans held'
        exact ⟨_, found, at_fault⟩
      | entry held' => cases held.symm.trans held'
    · obtain ⟨_, _, _, _, _, same, held', _⟩ := refuses
      cases same
      cases held.symm.trans held'
  · intro ⟨slot, found, at_fault⟩
    exact faultAt_of_next (.item held found) at_fault

theorem faultAt_entry_iff {entries : List (Key × Slot ν)} (held : g id = .mapping typeName entries) :
    FaultAt g r limit ⟨around, place, .held id⟩ (i :: way) f ↔
      ∃ e ∈ entries[i]?, match e.1.fault? r place with
        | some refused => way = [] ∧ f = refused
        | none => FaultAt g r limit ⟨id :: around, place ++ [.key e.1.name], e.2⟩ way f := by
  constructor
  · intro at_fault
    rcases next_or_refuses at_fault with ⟨next, step, at_fault⟩ | ⟨last, refuses⟩
    · cases step with
      | item held' => cases held.symm.trans held'
      | entry held' found named =>
        cases held.symm.trans held'
        exact ⟨_, found, by simpa only [named] using at_fault⟩
    · obtain ⟨_, _, _, _, _, same, held', found, refused⟩ := refuses
      cases same
      cases held.symm.trans held'
      refine ⟨_, found, ?_⟩
      simp only [refused, last, true_and]
  · intro ⟨⟨key, slot⟩, found, at_fault⟩
    cases named : key.fault? r place with
    | some refused =>
      simp only [named] at at_fault
      obtain ⟨rfl, rfl⟩ := at_fault
      exact faultAt_of_refused held found named
    | none =>
      simp only [named] at at_fault
      exact faultAt_of_next (.entry held found named) at_fault

theorem not_faultAt_leaf (leaf : ∀ id, v.slot ≠ .held id) : ¬FaultAt g r limit v (i :: way) f := by
  intro at_fault
  rcases next_or_refuses at_fault with ⟨_, step, -⟩ | ⟨-, refuses⟩
  · cases step <;> exact leaf _ rfl
  · obtain ⟨id, _, _, _, _, same, -⟩ := refuses
    exact leaf id same

end LiteralGrammar.Block
