import LiteralGrammar.Proofs.Block.FirstFault
import LiteralGrammar.Proofs.Block.Refinement

/-!
The writer on any value graph, shared or cyclic. It ends with the first fault in document order, or
with a text when no way is faulty, and leaves its state as it was. Entering one container inside
another as often as the guard allows is all the room that the recursion needs.
-/
namespace LiteralGrammar.Block

variable {ν α β : Type}

/-- The walk ends with the first fault if there is one, and in the state that it began in. -/
def Meets (m : Writing ν α) (s : Traversal ν) (faulty : List Nat → Fault → Prop) : Prop :=
  ∃ fault a, m.run s = (orFault fault a, s) ∧ IsFirst faulty fault

namespace Meets

variable {s : Traversal ν} {faulty faulty' : List Nat → Fault → Prop}

theorem congr {m : Writing ν α} (walk : Meets m s faulty)
    (same : ∀ way f, faulty way f ↔ faulty' way f) : Meets m s faulty' := by
  have equal : faulty = faulty' := funext fun way => funext fun f => propext (same way f)
  rwa [← equal]

theorem of_none (a : α) (sound : ∀ way f, ¬faulty way f) :
    Meets (pure a : Writing ν α) s faulty :=
  ⟨none, a, rfl, sound⟩

theorem bind_pure {m : Writing ν α} (walk : Meets m s faulty) (f : α → β) :
    Meets (m >>= fun x => pure (f x)) s faulty := by
  obtain ⟨fault, a, ran, first⟩ := walk
  exact ⟨fault, f a, Writing.run_bind_pure ran f, first⟩

theorem cons {m : Writing ν α} {rest : Writing ν (List α)} {i : Nat}
    (child : Meets m s fun way f => faulty (i :: way) f)
    (later : Meets rest s (Below faulty (i + 1))) :
    Meets (do let x ← m
              let xs ← rest
              pure (x :: xs) : Writing ν (List α)) s (Below faulty i) := by
  obtain ⟨fault, a, ran, first⟩ := child
  obtain ⟨fault', as, ran', first'⟩ := later
  exact ⟨_, _, Writing.run_cons ran ran', first_cons first first'⟩

theorem mapM {child : α → Writing ν β} (xs : List α) (start : Nat)
    (each : ∀ i x, xs[i]? = some x → Meets (child x) s fun way f => faulty ((start + i) :: way) f)
    (inside : ∀ i way f, faulty (i :: way) f → i < start + xs.length) :
    Meets (xs.mapM child) s (Below faulty start) := by
  -- Ways past the last part are sound, so the walk ends without a fault behind it.
  induction xs generalizing start with
  | nil =>
    rw [List.mapM_nil]
    exact of_none [] (not_below fun i way f past at_fault =>
      absurd (inside i way f at_fault) (Nat.not_lt.mpr past))
  | cons x rest ih =>
    rw [List.mapM_cons]
    refine cons (each 0 x rfl) (ih (start + 1) ?_ ?_)
    · intro i y found
      rw [Nat.add_assoc, Nat.add_comm 1 i]
      exact each (i + 1) y found
    · intro i way f at_fault
      have bound := inside i way f at_fault
      rw [List.length_cons] at bound
      omega

end Meets

def Traversal.Counted (s : Traversal ν) : Prop := s.guard.depth = s.ancestors.length

theorem Traversal.counted_inside {s : Traversal ν} (counted : s.Counted) (id : ν) :
    (s.inside id).Counted := by
  have outer : s.guard.depth = s.ancestors.length := counted
  simp only [Counted, inside, List.length_cons, outer, Int.natCast_add, Int.cast_ofNat_Int]

def Traversal.faultAt (s : Traversal ν) (g : Graph ν) (r : Runtime) (place : Place)
    (slot : Slot ν) : List Nat → Fault → Prop :=
  FaultAt g r s.guard.limit ⟨s.ancestors, place, slot⟩

variable [DecidableEq ν] {w : Writer} {g : Graph ν} {room : Nat} {s : Traversal ν} {id : ν}
  {typeName : Text}

theorem meets_entering {body : Writing ν Text} (counted : s.Counted) (place : Place)
    (inside : s.guard.depth < s.guard.limit →
      Meets body (s.inside id) (Below (s.faultAt g w.runtime place (.held id)) 0)) :
    Meets (entering g id place body) s (s.faultAt g w.runtime place (.held id)) := by
  by_cases opened : id ∈ s.ancestors
  · refine ⟨some (.cyclic (g id).typeName place), [], ?_, first_of_own (if_pos opened)⟩
    rw [run_entering, if_pos opened]
    rfl
  · have own := fault?_of_fresh g w.runtime s.guard.limit opened place
    by_cases deep : s.guard.depth < s.guard.limit
    · obtain ⟨fault, text, ran, first⟩ := inside deep
      have shallow : ¬s.guard.limit < s.ancestors.length + 1 := by rw [← counted]; omega
      rw [if_neg shallow] at own
      refine ⟨fault, text, ?_, first_of_children (sound_of_own own) first⟩
      rw [run_entering_fresh g id place body s opened fun _ => ran, if_neg (by omega)]
    · have below : s.guard.limit < s.ancestors.length + 1 := by rw [← counted]; omega
      rw [if_pos below] at own
      refine ⟨some (.tooDeep s.guard.limit), [], ?_, first_of_own own⟩
      rw [run_entering, if_neg opened, Depth.Guard.enter?, if_neg deep]
      rfl

def MeetsEach (w : Writer) (g : Graph ν) (room : Nat) (s : Traversal ν) : Prop :=
  ∀ mode place slot, Meets (w.writeWithin g room mode place slot) s (s.faultAt g w.runtime place slot)

theorem meets_items {items : List (Slot ν)} (held : g id = .sequence typeName items)
    (each : MeetsEach w g room (s.inside id)) (mode : Layout) (place : Place) :
    Meets (items.zipIdx.mapM fun p => w.writeWithin g room mode (place ++ [.item p.2]) p.1)
      (s.inside id) (Below (s.faultAt g w.runtime place (.held id)) 0) := by
  refine Meets.mapM _ 0 ?_ ?_
  · intro i p numbered
    rw [List.getElem?_zipIdx] at numbered
    obtain ⟨slot, found, rfl⟩ := Option.map_eq_some_iff.mp numbered
    refine (each mode _ slot).congr fun way f => ?_
    exact (faultAt_item_iff held |>.trans (by simp [found]; rfl)).symm
  · intro i way f at_fault
    obtain ⟨slot, found, -⟩ := (faultAt_item_iff held).mp at_fault
    have bound := (List.getElem?_eq_some_iff.mp found).1
    rwa [List.length_zipIdx, Nat.zero_add]

theorem meets_entry {e : Key × Slot ν} (each : MeetsEach w g room s) (inner : Text → Layout)
    (put : Text → Text → Slot ν → β) (place : Place) :
    Meets (do
        let name ← .ofExcept (e.1.write w.runtime place)
        let text ← w.writeWithin g room (inner name) (place ++ [.key name]) e.2
        pure (put name text e.2) : Writing ν β) s fun way f =>
      match e.1.fault? w.runtime place with
      | some refused => way = [] ∧ f = refused
      | none => s.faultAt g w.runtime (place ++ [.key e.1.name]) e.2 way f := by
  rw [Key.write]
  cases e.1.fault? w.runtime place with
  | some refused =>
    have first : IsFirst (fun way f => way = [] ∧ f = refused) (some refused) :=
      first_of_root ⟨rfl, rfl⟩ fun _ same => same.2
    have text := put [] [] e.2
    refine ⟨_, text, ?_, first⟩
    rw [Writing.run_bind, Writing.run_ofExcept]
    rfl
  | none =>
    obtain ⟨fault, text, ran, first⟩ := each (inner e.1.name) (place ++ [.key e.1.name]) e.2
    refine ⟨fault, put e.1.name text e.2, ?_, first⟩
    rw [Writing.run_bind, Writing.run_ofExcept]
    exact Writing.run_bind_pure ran _

theorem meets_entries {entries : List (Key × Slot ν)} (held : g id = .mapping typeName entries)
    (each : MeetsEach w g room (s.inside id)) (inner : Text → Layout)
    (put : Text → Text → Slot ν → β) (place : Place) :
    Meets (entries.mapM fun e : Key × Slot ν => (do
        let name ← .ofExcept (e.1.write w.runtime place)
        let text ← w.writeWithin g room (inner name) (place ++ [.key name]) e.2
        pure (put name text e.2) : Writing ν β))
      (s.inside id) (Below (s.faultAt g w.runtime place (.held id)) 0) := by
  refine Meets.mapM _ 0 ?_ ?_
  · intro i e found
    refine (meets_entry each inner put place).congr fun way f => ?_
    exact (faultAt_entry_iff held |>.trans (by simp [found]; rfl)).symm
  · intro i way f at_fault
    obtain ⟨e, found, -⟩ := (faultAt_entry_iff held).mp at_fault
    have bound := (List.getElem?_eq_some_iff.mp found).1
    rwa [Nat.zero_add]

theorem meets_container (each : MeetsEach w g room (s.inside id)) (counted : s.Counted)
    (mode : Layout) (place : Place) :
    Meets (w.writeWithin g (room + 1) mode place (.held id)) s (s.faultAt g w.runtime place (.held id)) := by
  unfold Writer.writeWithin
  refine meets_entering counted place fun _ => ?_
  cases held : g id with
  | sequence typeName items =>
    cases mode with
    | inline => exact (meets_items held each .inline place).bind_pure _
    | block =>
      cases items with
      | nil => exact (meets_items held each .block place).bind_pure fun _ => ("[]" : Text)
      | cons slot rest => exact (meets_items held each _ place).bind_pure _
  | mapping typeName entries =>
    cases mode with
    | inline =>
      exact (meets_entries held each (fun _ => .inline) (fun name text _ => (name, text))
        place).bind_pure _
    | block =>
      cases entries with
      | nil =>
        exact (meets_entries held each (fun _ => .block) (fun name text _ => (name, text))
          place).bind_pure fun _ => ("\x7b\x7d" : Text)
      | cons e rest =>
        exact (meets_entries held each (fun name => if isNumeric name then .inline else .block)
          (fun name text slot => blockEntry w.indentWidth name text (g.isNested slot))
          place).bind_pure _

theorem meets_leaf {slot : Slot ν} (leaf : ∀ id, slot ≠ .held id) (mode : Layout) (place : Place) :
    Meets (w.writeWithin g room mode place slot) s (s.faultAt g w.runtime place slot) := by
  cases slot with
  | held id => exact absurd rfl (leaf id)
  | scalar v =>
    unfold Writer.writeWithin
    refine ⟨v.fault? w.runtime, v.written w.indentWidth, Writing.run_ofExcept _ s, ?_⟩
    let visit : Visit ν := ⟨s.ancestors, place, .scalar v⟩
    have own : visit.fault? g w.runtime s.guard.limit = v.fault? w.runtime := rfl
    cases refused : v.fault? w.runtime with
    | some f => exact first_of_own (own.trans refused)
    | none =>
      intro way f at_fault
      cases way with
      | nil => exact sound_of_own (own.trans refused) f at_fault
      | cons i way => exact not_faultAt_leaf leaf at_fault
  | foreign typeName =>
    refine ⟨some (.unsupported typeName place), [], ?_, first_of_own rfl⟩
    unfold Writer.writeWithin
    rfl

theorem meetsEach_of_held (held : ∀ mode place id,
    Meets (w.writeWithin g room mode place (.held id)) s (s.faultAt g w.runtime place (.held id))) :
    MeetsEach w g room s := by
  intro mode place slot
  cases slot with
  | scalar => exact meets_leaf (by simp) mode place
  | foreign => exact meets_leaf (by simp) mode place
  | held id => exact held mode place id

theorem meets_writeWithin (w : Writer) (g : Graph ν) (room : Nat) :
    ∀ s : Traversal ν, s.room ≤ room → s.Counted → MeetsEach w g room s := by
  induction room with
  | zero =>
    intro s enough counted
    refine meetsEach_of_held fun mode place id => ?_
    unfold Writer.writeWithin
    refine meets_entering counted place fun deep => ?_
    have := Traversal.room_pos deep
    omega
  | succ room ih =>
    intro s enough counted
    refine meetsEach_of_held fun mode place id => ?_
    have inside : (s.inside id).room ≤ room := by rw [Traversal.room_inside]; omega
    have each := ih (s.inside id) inside (Traversal.counted_inside counted id)
    exact meets_container each counted mode place

end LiteralGrammar.Block
