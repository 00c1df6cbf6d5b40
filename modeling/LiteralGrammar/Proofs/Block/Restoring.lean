import LiteralGrammar.Proofs.Block.GraphWalk

/-!
The state of a walk. Every call gives back the state that it was given, with a text or with a fault.
In between, the open containers are those on the way to the place that is being written, and the
guard counts them. To say so, a second walk carries the way beside the state, where the writer does
not see it, and compares the two in front of every call. The comparison never fails.
-/
namespace LiteralGrammar.Block

variable {ν α β : Type}

namespace Writing

variable {s : Traversal ν}

theorem run_bind_congr {m m' : Writing ν α} (same : m.run s = m'.run s) (f : α → Writing ν β) :
    (m >>= f).run s = (m' >>= f).run s := by
  rw [run_bind, run_bind, same]

theorem run_mapM_congr {f f' : α → Writing ν β} (same : ∀ a, (f a).run s = (f' a).run s)
    (restores : ∀ a, ((f' a).run s).2 = s) (as : List α) :
    (as.mapM f).run s = (as.mapM f').run s := by
  induction as with
  | nil => rfl
  | cons a rest ih =>
    have restored := restores a
    rw [List.mapM_cons, List.mapM_cons, run_bind, run_bind, same a]
    generalize (f' a).run s = ran at restored
    obtain ⟨outcome, s'⟩ := ran
    cases restored
    cases outcome with
    | error f => rfl
    | ok b => exact run_bind_congr ih _

end Writing

structure Alike (call call' : Layout → Place → Slot ν → Writing ν Text) (s : Traversal ν) : Prop where
  same : ∀ mode place slot, (call mode place slot).run s = (call' mode place slot).run s
  restores : ∀ mode place slot, ((call' mode place slot).run s).2 = s

namespace Alike

variable {call call' : Layout → Place → Slot ν → Writing ν Text} {s : Traversal ν}

theorem run_items (alike : Alike call call' s) (mode : Layout) (place : Place)
    (items : List (Slot ν × Nat)) :
    (items.mapM fun p => call mode (place ++ [.item p.2]) p.1).run s =
      (items.mapM fun p => call' mode (place ++ [.item p.2]) p.1).run s :=
  Writing.run_mapM_congr (fun _ => alike.same ..) (fun _ => alike.restores ..) items

theorem run_entries (alike : Alike call call' s) (r : Runtime) (inner : Text → Layout)
    (place : Place) (put : Text → Text → Slot ν → β)
    (entries : List (Key × Slot ν)) :
    (entries.mapM fun e : Key × Slot ν => (do
      let name ← .ofExcept (e.1.write r place)
      let written ← call (inner name) (place ++ [.key name]) e.2
      pure (put name written e.2) : Writing ν β)).run s =
    (entries.mapM fun e : Key × Slot ν => (do
      let name ← .ofExcept (e.1.write r place)
      let written ← call' (inner name) (place ++ [.key name]) e.2
      pure (put name written e.2) : Writing ν β)).run s := by
  refine Writing.run_mapM_congr (fun e => ?_) (fun e => ?_) entries
  · rw [Writing.run_bind, Writing.run_bind, Writing.run_ofExcept]
    cases e.1.write r place with
    | error refused => rfl
    | ok name => exact Writing.run_bind_congr (alike.same ..) _
  · rw [Writing.run_bind, Writing.run_ofExcept]
    cases e.1.write r place with
    | error refused => rfl
    | ok name =>
      have restored := alike.restores (inner name) (place ++ [.key name]) e.2
      simp only [Writing.run_bind]
      generalize (call' _ _ _).run s = ran at restored ⊢
      obtain ⟨outcome, s'⟩ := ran
      cases outcome <;> exact restored

end Alike

variable [DecidableEq ν] {w : Writer} {g : Graph ν} {s : Traversal ν} {id : ν}

theorem run_entering_congr {body body' : Writing ν Text}
    (same : s.guard.depth < s.guard.limit → body.run (s.inside id) = body'.run (s.inside id))
    (place : Place) : (entering g id place body).run s = (entering g id place body').run s := by
  rw [run_entering, run_entering]
  by_cases deep : s.guard.depth < s.guard.limit
  · have same := same deep
    unfold Traversal.inside at same
    rw [Depth.Guard.enter?, if_pos deep]
    simp only [same]
  · rw [Depth.Guard.enter?, if_neg deep]

theorem run_entering_of_full (full : s.room = 0) (place : Place) (body body' : Writing ν Text) :
    (entering g id place body).run s = (entering g id place body').run s := by
  refine run_entering_congr (fun deep => ?_) place
  have := Traversal.room_pos deep
  omega

namespace Writer

/-- One call of the writer, with the calls that it makes itself left open. -/
def writeThrough (w : Writer) (g : Graph ν) (call : Layout → Place → Slot ν → Writing ν Text)
    (layout : Layout) (place : Place) : Slot ν → Writing ν Text
  | .scalar s => .ofExcept (s.write w.runtime w.indentWidth)
  | .foreign typeName => throw (.unsupported typeName place)
  | .held id => entering g id place <|
    match g id, layout with
    | .sequence _ items, .inline => do
      let parts ← items.zipIdx.mapM fun (item, i) => call .inline (place ++ [.item i]) item
      pure (inlineSequence parts)
    | .mapping _ entries, .inline => do
      let parts ← entries.mapM fun (key, value) => do
        let name ← .ofExcept (key.write w.runtime place)
        let written ← call .inline (place ++ [.key name]) value
        pure (name, written)
      pure (inlineMapping parts)
    | .sequence _ [], .block => pure "[]"
    | .sequence _ items, .block => do
      let flat := !items.any g.isContainer
      let inner := if flat then .inline else .block
      let parts ← items.zipIdx.mapM fun (item, i) => call inner (place ++ [.item i]) item
      pure (if flat then flatItems parts else hungItems parts)
    | .mapping _ [], .block => pure "\x7b\x7d"
    | .mapping _ entries, .block => do
      let parts ← entries.mapM fun (key, value) => do
        let name ← .ofExcept (key.write w.runtime place)
        let inner := if isNumeric name then .inline else .block
        let written ← call inner (place ++ [.key name]) value
        pure (blockEntry w.indentWidth name written (g.isNested value))
      pure (Text.unlines parts)

theorem writeWithin_succ (w : Writer) (g : Graph ν) (room : Nat) (layout : Layout) (place : Place)
    (slot : Slot ν) : w.writeWithin g (room + 1) layout place slot =
      w.writeThrough g (w.writeWithin g room) layout place slot := by
  cases slot <;> rfl

theorem run_writeThrough_congr {call call' : Layout → Place → Slot ν → Writing ν Text}
    (alike : Alike call call' (s.inside id)) (mode : Layout) (place : Place) :
    (w.writeThrough g call mode place (.held id)).run s =
      (w.writeThrough g call' mode place (.held id)).run s := by
  refine run_entering_congr (fun _ => ?_) place
  cases g id with
  | sequence typeName items =>
    cases mode with
    | inline => exact Writing.run_bind_congr (alike.run_items .inline place _) _
    | block =>
      cases items with
      | nil => rfl
      | cons item rest => exact Writing.run_bind_congr (alike.run_items _ place _) _
  | mapping typeName entries =>
    cases mode with
    | inline =>
      exact Writing.run_bind_congr (alike.run_entries w.runtime (fun _ => .inline) place
        (fun name written _ => (name, written)) entries) _
    | block =>
      cases entries with
      | nil => rfl
      | cons e rest =>
        exact Writing.run_bind_congr (alike.run_entries w.runtime
          (fun name => if isNumeric name then .inline else .block) place
          (fun name written value => blockEntry w.indentWidth name written (g.isNested value)) _) _

def wayInto (around : List ν) : Slot ν → List ν
  | .held id => id :: around
  | _ => around

/-- The walk with a comparison in front of every call. It raises the alarm where the open containers
are not those on the way or the guard does not count them, and also where the room runs out. -/
def writeChecked (w : Writer) (g : Graph ν) (alarm : Fault) (room : Nat) (around : List ν)
    (layout : Layout) (place : Place) (slot : Slot ν) : Writing ν Text := do
  let s ← get
  if s.ancestors ≠ around ∨ s.guard.depth ≠ around.length then throw alarm
  match room with
  | 0 => w.writeThrough g (fun _ _ _ => throw alarm) layout place slot
  | room + 1 =>
    w.writeThrough g (w.writeChecked g alarm room (wayInto around slot)) layout place slot

variable {alarm : Fault} {room : Nat}

theorem run_compared (counted : s.Counted) (call : Writing ν Text) :
    (do let now ← get
        if now.ancestors ≠ s.ancestors ∨ now.guard.depth ≠ s.ancestors.length then throw alarm
        call : Writing ν Text).run s = call.run s := by
  have depth : s.guard.depth = s.ancestors.length := counted
  rw [Writing.run_bind]
  change (if _ then _ else _ : Writing ν Text).run s = _
  rw [if_neg (by simp [depth])]

theorem restores_writeWithin (enough : s.room ≤ room) (counted : s.Counted) (mode : Layout)
    (place : Place) (slot : Slot ν) : ((w.writeWithin g room mode place slot).run s).2 = s := by
  obtain ⟨fault, text, ran, -⟩ := meets_writeWithin w g room s enough counted mode place slot
  rw [ran]

/-- The comparison never fails, so the walk that makes it ends like the one that does not. -/
theorem run_writeChecked (w : Writer) (g : Graph ν) (alarm : Fault) (room : Nat) :
    ∀ s : Traversal ν, s.room ≤ room → s.Counted → ∀ mode place slot,
      (w.writeChecked g alarm room s.ancestors mode place slot).run s =
        (w.writeWithin g room mode place slot).run s := by
  induction room with
  | zero =>
    intro s enough counted mode place slot
    rw [writeChecked, run_compared counted]
    cases slot with
    | scalar => rfl
    | foreign => rfl
    | held id => exact run_entering_of_full (Nat.le_zero.mp enough) place _ _
  | succ room ih =>
    intro s enough counted mode place slot
    rw [writeChecked, run_compared counted, writeWithin_succ]
    cases slot with
    | scalar => rfl
    | foreign => rfl
    | held id =>
      have inside : (s.inside id).room ≤ room := by rw [Traversal.room_inside]; omega
      have counted := Traversal.counted_inside counted id
      exact run_writeThrough_congr
        ⟨ih (s.inside id) inside counted, restores_writeWithin inside counted⟩ mode place

theorem run_write (w : Writer) (g : Graph ν) (s : Traversal ν) (mode : Layout) (place : Place)
    (slot : Slot ν) : (w.write g mode place slot).run s =
      (w.writeWithin g s.room mode place slot).run s := by
  rw [write, Writing.run_bind]
  rfl

theorem restores_write (counted : s.Counted) (mode : Layout) (place : Place) (slot : Slot ν) :
    ((w.write g mode place slot).run s).2 = s := by
  rw [run_write]
  exact restores_writeWithin (Nat.le_refl _) counted mode place slot

theorem run_write_through (counted : s.Counted) (mode : Layout) (place : Place) (slot : Slot ν) :
    (w.write g mode place slot).run s = (w.writeThrough g (w.write g) mode place slot).run s := by
  rw [run_write]
  cases slot with
  | scalar => cases s.room <;> rfl
  | foreign => cases s.room <;> rfl
  | held id =>
    cases left : s.room with
    | zero => exact run_entering_of_full left place _ _
    | succ room =>
      have inside : (s.inside id).room = room := by rw [Traversal.room_inside]; omega
      have counted := Traversal.counted_inside counted id
      rw [writeWithin_succ]
      refine run_writeThrough_congr ⟨fun mode place slot => ?_, restores_write counted⟩ mode place
      rw [run_write, inside]

/-- Any call gives back the state that it was given, whether it ends with a text or with a fault. The
calls that it makes are calls of the writer again. In front of each of them, at any depth, the open
containers are those on the way, and the guard counts them: a comparison raises no alarm. -/
theorem walk_restores_state (w : Writer) (g : Graph ν) (s : Traversal ν)
    (counted : s.guard.depth = s.ancestors.length) (mode : Layout) (place : Place) (slot : Slot ν) :
    ((w.write g mode place slot).run s).2 = s ∧
    (w.write g mode place slot).run s = (w.writeThrough g (w.write g) mode place slot).run s ∧
    ∀ alarm, (w.writeChecked g alarm s.room s.ancestors mode place slot).run s =
      (w.write g mode place slot).run s := by
  refine ⟨restores_write counted mode place slot, run_write_through counted mode place slot, ?_⟩
  intro alarm
  rw [run_write, run_writeChecked w g alarm s.room s (Nat.le_refl _) counted]

/-- Two containers below an open one, and then that one again; once with room for the two of them, so
that the cycle is found, and once without, so that the guard refuses the second. -/
theorem walk_restores_state_below_open :
    let g : Graph Nat := fun id =>
      if id = 1 then .mapping "dict" [(.text "a", .held 2)]
      else if id = 2 then .sequence "tuple" [.scalar .null, .held 3]
      else .mapping "dict" [(.integer 5, .held 1)]
    let below (limit : Int) : Traversal Nat := ⟨⟨limit, 1⟩, [1]⟩
    let run (limit : Int) := (standard.write g .block [.key "a"] (.held 2)).run (below limit)
    (below 3).guard.depth = (below 3).ancestors.length ∧
    run 3 = (.error (.cyclic "dict" [.key "a", .item 1, .key "5"]), below 3) ∧
    run 2 = (.error (.tooDeep 2), below 2) ∧
    (standard.writeChecked g (.tooDeep 9) 2 [1] .block [.key "a"] (.held 2)).run (below 3) =
      run 3 := by
  intro g below run
  obtain ⟨restored, -, unalarmed⟩ :=
    walk_restores_state standard g (below 3) rfl .block [.key "a"] (.held 2)
  obtain ⟨refused, -⟩ := walk_restores_state standard g (below 2) rfl .block [.key "a"] (.held 2)
  exact ⟨rfl, Prod.ext rfl restored, Prod.ext rfl refused, unalarmed (.tooDeep 9)⟩

end Writer

end LiteralGrammar.Block
