import LiteralGrammar.Proofs.Block.Plain
import LiteralGrammar.Proofs.Block.Unfolding

/-!
The writer against the two definitions on trees. On a graph that unfolds to a tree it gives the
first fault of the tree, or else its text, and leaves its state as it was.
-/
namespace LiteralGrammar.Block

variable {ν : Type}

namespace Writing

variable {α β : Type}

theorem run_bind (m : Writing ν α) (f : α → Writing ν β) (s : Traversal ν) :
    (m >>= f).run s = match m.run s with
      | (.ok a, s') => (f a).run s'
      | (.error e, s') => (.error e, s') := by
  change (ExceptT.bindCont f (m.run s).1) (m.run s).2 = _
  obtain ⟨r, s'⟩ := m.run s
  cases r <;> rfl

theorem run_finally (m : Writing ν α) (f : Traversal ν → Traversal ν) (s : Traversal ν) :
    (tryFinally m (modify f)).run s = ((m.run s).1, f (m.run s).2) := by
  unfold tryFinally
  simp only [tryFinally', ExceptT.run, ExceptT.mk, Functor.map, ExceptT.map, StateT.bind, bind]
  obtain ⟨r, s'⟩ := m s
  cases r <;> rfl

theorem run_bind_pure {m : Writing ν α} {fault : Option Fault} {a : α} {s s' : Traversal ν}
    (ran : m.run s = (orFault fault a, s')) (f : α → β) :
    (m >>= fun x => pure (f x)).run s = (orFault fault (f a), s') := by
  rw [run_bind, ran]
  cases fault <;> rfl

theorem run_ofExcept (e : Except Fault α) (s : Traversal ν) : (ofExcept e).run s = (e, s) := by
  cases e <;> rfl

theorem run_cons {m : Writing ν α} {rest : Writing ν (List α)} {f f' : Option Fault} {a : α}
    {as : List α} {s : Traversal ν} (first : m.run s = (orFault f a, s))
    (later : rest.run s = (orFault f' as, s)) :
    (do let x ← m
        let xs ← rest
        pure (x :: xs) : Writing ν (List α)).run s = (orFault (f.or f') (a :: as), s) := by
  rw [run_bind, first]
  cases f with
  | some f => rfl
  | none => exact run_bind_pure later _

end Writing

namespace Traversal

def inside (s : Traversal ν) (id : ν) : Traversal ν :=
  ⟨{ s.guard with depth := s.guard.depth + 1 }, id :: s.ancestors⟩

theorem room_inside (s : Traversal ν) (id : ν) : (s.inside id).room = s.room - 1 := by
  simp only [room, inside]
  omega

theorem room_pos {s : Traversal ν} (deep : s.guard.depth < s.guard.limit) : 0 < s.room := by
  simp only [room]
  omega

end Traversal

namespace Writer

def limit (w : Writer) : Int := Depth.clamp w.maxDepth w.runtime.stack Depth.reservedFrames

def room (w : Writer) : Nat := w.limit.toNat

theorem room_start (w : Writer) : (Traversal.mk w.guard [] : Traversal ν).room = w.room :=
  congrArg Int.toNat (Int.sub_zero _)

end Writer

variable [DecidableEq ν]

theorem run_entering (g : Graph ν) (id : ν) (place : Place) (body : Writing ν Text)
    (s : Traversal ν) :
    (entering g id place body).run s =
      if id ∈ s.ancestors then (.error (.cyclic (g id).typeName place), s)
      else match s.guard.enter? with
        | none => (.error (.tooDeep s.guard.limit), s)
        | some guard =>
          let r := body.run ⟨guard, id :: s.ancestors⟩
          (r.1, r.2.leave id) := by
  unfold entering
  rw [Writing.run_bind]
  change (if id ∈ s.ancestors then _ else _ : Writing ν Text).run s = _
  by_cases opened : id ∈ s.ancestors
  · rw [if_pos opened, if_pos opened]
    rfl
  · rw [if_neg opened, if_neg opened]
    change (match s.guard.enter? with | none => _ | some guard => _ : Writing ν Text).run s = _
    cases s.guard.enter? with
    | none => rfl
    | some guard =>
      simp only
      rw [Writing.run_bind]
      exact Writing.run_finally body _ _

theorem Traversal.leave_inside (s : Traversal ν) (id : ν) : (s.inside id).leave id = s := by
  simp [leave, inside, Depth.Guard.exit]

theorem run_entering_fresh (g : Graph ν) (id : ν) (place : Place) (body : Writing ν Text)
    (s : Traversal ν) (fresh : id ∉ s.ancestors) {fault : Option Fault} {text : Text}
    (ran : s.guard.depth < s.guard.limit →
      body.run (s.inside id) = (orFault fault text, s.inside id)) :
    (entering g id place body).run s =
      (orFault (if s.guard.limit < s.guard.depth + 1 then some (.tooDeep s.guard.limit)
        else fault) text, s) := by
  rw [run_entering, if_neg fresh]
  by_cases deep : s.guard.depth < s.guard.limit
  · rw [Depth.Guard.enter?, if_pos deep, if_neg (by omega)]
    have ran := ran deep
    unfold Traversal.inside at ran
    simp only [ran]
    exact congrArg (Prod.mk _) (s.leave_inside id)
  · rw [Depth.Guard.enter?, if_neg deep, if_pos (by omega)]
    rfl

/-- The writer gives what the tree gives, and leaves the state alone. -/
def Agrees (w : Writer) (g : Graph ν) (room : Nat) (s : Traversal ν) (t : Tree) : Prop :=
  ∀ mode place slot, Unfolds g s.ancestors slot t →
    (w.writeWithin g room mode place slot).run s =
      (orFault (t.firstFault? w.runtime s.guard.limit s.guard.depth place)
        (t.layout w.indentWidth mode), s)

variable {w : Writer} {g : Graph ν} {room : Nat} {s : Traversal ν}

theorem run_items (mode : Layout) (place : Place) {items : List Tree}
    (each : ∀ t ∈ items, Agrees w g room s t) (slots : List (Slot ν)) (i : Nat)
    (unfold : ItemsUnfold g s.ancestors slots items) :
    ((slots.zipIdx i).mapM fun p =>
      w.writeWithin g room mode (place ++ [.item p.2]) p.1).run s =
        (orFault (Tree.itemsFault? w.runtime s.guard.limit s.guard.depth place i items)
          (Tree.itemLayouts w.indentWidth mode items), s) := by
  induction items generalizing slots i with
  | nil =>
    match slots, unfold with
    | [], _ => rfl
  | cons t rest ih =>
    match slots, unfold with
    | slot :: slots, ⟨first, later⟩ =>
      obtain ⟨agrees, each⟩ := List.forall_mem_cons.mp each
      rw [List.zipIdx_cons, List.mapM_cons]
      exact Writing.run_cons (agrees _ _ _ first) (ih each slots (i + 1) later)

/-- An entry is put together from its name, the text of its value, and what the value is. -/
theorem run_entries {β : Type} (inner : Text → Layout) (place : Place)
    (put : Text → Text → Slot ν → β) (put' : Text → Text → Tree → β)
    (same : ∀ name text slot t, Unfolds g s.ancestors slot t →
      put name text slot = put' name text t) {entries : List (Key × Tree)}
    (each : ∀ e ∈ entries, Agrees w g room s e.2) (slots : List (Key × Slot ν))
    (unfold : EntriesUnfold g s.ancestors slots entries) :
    (slots.mapM fun e : Key × Slot ν => (do
      let name ← .ofExcept (e.1.write w.runtime place)
      let text ← w.writeWithin g room (inner name) (place ++ [.key name]) e.2
      pure (put name text e.2) : Writing ν β)).run s =
        (orFault (Tree.entriesFault? w.runtime s.guard.limit s.guard.depth place entries)
          (entries.map fun e =>
            put' e.1.name (e.2.layout w.indentWidth (inner e.1.name)) e.2), s) := by
  induction entries generalizing slots with
  | nil =>
    match slots, unfold with
    | [], _ => rfl
  | cons e rest ih =>
    match slots, e, unfold with
    | (_, slot) :: slots, (key, t), ⟨rfl, first, later⟩ =>
      obtain ⟨agrees, each⟩ := List.forall_mem_cons.mp each
      rw [List.mapM_cons, Tree.entriesFault?, Key.write]
      cases key.fault? w.runtime place with
      | some refused =>
        rw [Writing.run_bind, Writing.run_bind, Writing.run_ofExcept]
        rfl
      | none =>
        rw [List.map_cons, Option.none_or]
        refine Writing.run_cons ?_ (ih each slots later)
        rw [orFault, Writing.run_bind, Writing.run_ofExcept, ← same _ _ slot t first]
        exact Writing.run_bind_pure (agrees _ _ _ first) _

theorem run_sequence {id : ν} {typeName : Text} {slots : List (Slot ν)} {items : List Tree}
    (fresh : id ∉ s.ancestors) (held : g id = .sequence typeName slots)
    (below : ItemsUnfold g (s.inside id).ancestors slots items)
    (each : s.guard.depth < s.guard.limit →
      ∃ inner, room = inner + 1 ∧ ∀ t ∈ items, Agrees w g inner (s.inside id) t)
    (mode : Layout) (place : Place) :
    (w.writeWithin g room mode place (.held id)).run s =
      (orFault
        ((Tree.sequence typeName items).firstFault? w.runtime s.guard.limit s.guard.depth place)
        ((Tree.sequence typeName items).layout w.indentWidth mode), s) := by
  unfold Writer.writeWithin
  refine run_entering_fresh g id place _ s fresh fun deep => ?_
  obtain ⟨inner, rfl, agree⟩ := each deep
  simp only [held]
  cases mode with
  | inline => exact Writing.run_bind_pure (run_items .inline place agree slots 0 below) _
  | block =>
    cases slots with
    | nil =>
      cases items with
      | nil => rfl
      | cons => exact below.elim
    | cons slot slots =>
      have nonempty : items ≠ [] := fun none => by rw [none] at below; exact below.elim
      simp only [any_isContainer_of_unfold below]
      cases nested : items.any Tree.isContainer with
      | true =>
        rw [Tree.layout_hung nested, ← Tree.itemLayouts_eq_map]
        exact Writing.run_bind_pure (run_items .block place agree _ 0 below) _
      | false =>
        rw [Tree.layout_flat nonempty nested, ← Tree.itemLayouts_eq_map]
        exact Writing.run_bind_pure (run_items .inline place agree _ 0 below) _

theorem run_mapping {id : ν} {typeName : Text} {slots : List (Key × Slot ν)}
    {entries : List (Key × Tree)} (fresh : id ∉ s.ancestors) (held : g id = .mapping typeName slots)
    (below : EntriesUnfold g (s.inside id).ancestors slots entries)
    (each : s.guard.depth < s.guard.limit →
      ∃ inner, room = inner + 1 ∧ ∀ e ∈ entries, Agrees w g inner (s.inside id) e.2)
    (mode : Layout) (place : Place) :
    (w.writeWithin g room mode place (.held id)).run s =
      (orFault
        ((Tree.mapping typeName entries).firstFault? w.runtime s.guard.limit s.guard.depth place)
        ((Tree.mapping typeName entries).layout w.indentWidth mode), s) := by
  unfold Writer.writeWithin
  refine run_entering_fresh g id place _ s fresh fun deep => ?_
  obtain ⟨inner, rfl, agree⟩ := each deep
  simp only [held]
  cases mode with
  | inline =>
    rw [Tree.layout, Tree.inlineEntries_eq_map]
    exact Writing.run_bind_pure (run_entries (fun _ => .inline) place
      (fun name text _ => (name, text)) (fun name text _ => (name, text))
      (fun _ _ _ _ _ => rfl) agree slots below) _
  | block =>
    cases slots with
    | nil =>
      cases entries with
      | nil => rfl
      | cons => exact below.elim
    | cons slot slots =>
      have nonempty : entries ≠ [] := fun none => by rw [none] at below; exact below.elim
      rw [Tree.layout_entries nonempty, Tree.blockEntries_eq_map]
      exact Writing.run_bind_pure (run_entries
        (fun name => if isNumeric name then .inline else .block) place
        (fun name text slot => blockEntry w.indentWidth name text (g.isNested slot))
        (fun name text t => blockEntry w.indentWidth name text t.isNested)
        (fun _ _ _ _ unfold => by rw [isNested_of_unfolds unfold]) agree _ below) _

theorem room_below {held : List Tree} (enough : s.room ≤ room) (id : ν)
    (ih : ∀ t ∈ held, ∀ inner (s : Traversal ν), s.room ≤ inner → Agrees w g inner s t)
    (deep : s.guard.depth < s.guard.limit) :
    ∃ inner, room = inner + 1 ∧ ∀ t ∈ held, Agrees w g inner (s.inside id) t := by
  have positive := Traversal.room_pos deep
  obtain ⟨inner, rfl⟩ := Nat.exists_eq_succ_of_ne_zero (n := room) (by omega)
  refine ⟨inner, rfl, ?_⟩
  intro t member
  exact ih t member inner _ (by rw [Traversal.room_inside]; omega)

theorem run_writeWithin (w : Writer) (g : Graph ν) (t : Tree) :
    ∀ room s, Traversal.room s ≤ room → Agrees w g room s t := by
  induction t with
  | scalar v =>
    intro room s _ mode place slot unfold
    cases unfold
    unfold Writer.writeWithin
    exact Writing.run_ofExcept _ s
  | foreign typeName =>
    intro room s _ mode place slot unfold
    cases unfold
    cases room <;> rfl
  | sequence typeName items ih =>
    intro room s enough mode place slot unfold
    obtain ⟨id, slots, rfl, fresh, held, below⟩ := unfold
    exact run_sequence fresh held below (room_below enough id ih) mode place
  | mapping typeName entries ih =>
    intro room s enough mode place slot unfold
    obtain ⟨id, slots, rfl, fresh, held, below⟩ := unfold
    refine run_mapping fresh held below ?_ mode place
    intro deep
    have values : ∀ t ∈ entries.map Prod.snd, ∀ inner (s : Traversal ν), s.room ≤ inner →
        Agrees w g inner s t := List.forall_mem_map.mpr ih
    obtain ⟨inner, rfl, each⟩ := room_below enough id values deep
    exact ⟨inner, rfl, List.forall_mem_map.mp each⟩

namespace Writer

variable {w v : Writer}

theorem limit_mono (deeper : w.maxDepth ≤ v.maxDepth) (same : v.runtime = w.runtime) :
    w.limit ≤ v.limit := by
  simp only [limit, Depth.clamp, same]
  omega

theorem limit_congr (depth : v.maxDepth = w.maxDepth) (same : v.runtime = w.runtime) :
    v.limit = w.limit := by
  rw [limit, depth, same, limit]

theorem run_write_tree (w : Writer) (t : Tree) (mode : Layout) :
    ((w.write t.graph mode [] (t.slot [])).run ⟨w.guard, []⟩).1 =
      orFault (t.firstFault? w.runtime w.limit 0 []) (t.layout w.indentWidth mode) := by
  have unfolds := Tree.unfolds_graph t t [] [] rfl (by simp)
  have ran := run_writeWithin w t.graph t _ ⟨w.guard, []⟩ (Nat.le_refl _) mode [] _ unfolds
  rw [write, Writing.run_bind]
  exact congrArg Prod.fst ran

theorem serializeTree_eq (w : Writer) (t : Tree) :
    w.serializeTree t =
      orFault (t.firstFault? w.runtime w.limit 0 []) (t.layout w.indentWidth .block) :=
  w.run_write_tree t .block

theorem serializeTree_eq_ok_iff (w : Writer) (t : Tree) (text : Text) :
    w.serializeTree t = .ok text ↔
      t.firstFault? w.runtime w.limit 0 [] = none ∧ t.layout w.indentWidth .block = text := by
  rw [serializeTree_eq]
  cases t.firstFault? w.runtime w.limit 0 [] <;> simp [orFault]

theorem serializeTree_eq_error_iff (w : Writer) (t : Tree) (f : Fault) :
    w.serializeTree t = .error f ↔ t.firstFault? w.runtime w.limit 0 [] = some f := by
  rw [serializeTree_eq]
  cases t.firstFault? w.runtime w.limit 0 [] <;> simp [orFault]

theorem firstFault?_eq_none_iff_fits (w : Writer) (t : Tree) :
    t.firstFault? w.runtime w.limit 0 [] = none ↔ t.Writable w.runtime ∧ t.height ≤ w.room := by
  have room : (0 < t.height → 0 + (t.height : Int) ≤ w.limit) ↔ t.height ≤ w.room := by
    rw [Writer.room]
    omega
  rw [Tree.firstFault?_eq_none_iff, room]

theorem serializeTree_eq_ok_iff_fits (w : Writer) (t : Tree) (text : Text) :
    w.serializeTree t = .ok text ↔
      t.Writable w.runtime ∧ t.height ≤ w.room ∧ t.layout w.indentWidth .block = text := by
  rw [serializeTree_eq_ok_iff, firstFault?_eq_none_iff_fits, and_assoc]

theorem serializeTree_scalar (w : Writer) (s : Scalar) :
    w.serializeTree (.scalar s) = s.write w.runtime w.indentWidth := by
  rw [serializeTree_eq]
  rfl

theorem serializeTree_written (w : Writer) {s : Scalar} (printed : s.Writable w.runtime) :
    w.serializeTree (.scalar s) = .ok (s.written w.indentWidth) := by
  rw [serializeTree_scalar, Scalar.write, (s.fault?_eq_none_iff w.runtime).mpr printed, orFault]

/-- In either layout the writer gives the first fault of the walk, or else the text of the tree.
So faults do not hang on the indentation, texts do not hang on the depth allowed, and neither hangs
on kinds of containers or spellings of integer keys. A number is at fault only if it has more digits
than are printed. -/
theorem write_tree_refines_walk (w : Writer) (t : Tree) :
    (∀ mode, ((w.write t.graph mode [] (t.slot [])).run ⟨w.guard, []⟩).1 =
      match t.firstFault? w.runtime
        (Depth.clamp w.maxDepth w.runtime.stack Depth.reservedFrames) 0 [] with
      | some fault => .error fault
      | none => .ok (t.layout w.indentWidth mode)) ∧
    w.serializeTree t = ((w.write t.graph .block [] (t.slot [])).run ⟨w.guard, []⟩).1 ∧
    (∀ v : Writer, v.maxDepth = w.maxDepth → v.runtime = w.runtime →
      ∀ fault, w.serializeTree t = .error fault ↔ v.serializeTree t = .error fault) ∧
    (∀ v : Writer, w.maxDepth ≤ v.maxDepth → v.indentWidth = w.indentWidth →
      v.runtime = w.runtime →
      ∀ text, w.serializeTree t = .ok text → v.serializeTree t = .ok text) ∧
    w.serializeTree (t.plain w.runtime) = w.serializeTree t ∧
    ∀ most, w.serializeTree t = .error (.longNumeral most) →
      w.runtime.longestNumeral = some most ∧
        ∃ n, t.HasInteger n ∧ most < (Text.ofNat n.natAbs).length := by
  refine ⟨w.run_write_tree t, rfl, ?_, ?_, ?_, ?_⟩
  · intro v depth same fault
    rw [serializeTree_eq_error_iff, serializeTree_eq_error_iff, limit_congr depth same, same]
  · intro v deeper width same text written
    obtain ⟨sound, rfl⟩ := (serializeTree_eq_ok_iff ..).mp written
    rw [serializeTree_eq_ok_iff, width, same]
    have room := (t.firstFault?_eq_none_iff ..).mp sound
    refine ⟨(t.firstFault?_eq_none_iff ..).mpr ⟨room.1, fun nested => ?_⟩, rfl⟩
    exact Int.le_trans (room.2 nested) (limit_mono deeper same)
  · rw [serializeTree_eq, Tree.firstFault?_plain, Tree.layout_plain, ← serializeTree_eq]
  · intro most failed
    exact Tree.long_of_firstFault? ((serializeTree_eq_error_iff ..).mp failed)

theorem write_tree_refines_walk_mixed :
    let t := Tree.mapping "OrderedDict"
      [(.integer 5, .sequence "tuple" [.scalar .null]), (.text "k", .sequence "list" [])]
    let deep := Tree.list [.list [.list [], .foreign "set"]]
    let long := Tree.list [.scalar (.integer (-Int.pow 10 640)), .foreign "set"]
    Writer.serializeTree { maxDepth := 7, indentWidth := 3 } t = .ok "5: [null]\nk:\n   []" ∧
    Writer.serializeTree { maxDepth := 2, indentWidth := 8 } deep = .error (.tooDeep 2) ∧
    ∃ n, long.HasInteger n ∧ 640 < (Text.ofNat n.natAbs).length := by
  intro t deep long
  let w : Writer := { maxDepth := 2, indentWidth := 3 }
  let v : Writer :=
    { maxDepth := 2, indentWidth := 3, runtime := { longestNumeral := some 640 } }
  have text : w.serializeTree t = .ok "5: [null]\nk:\n   []" := rfl
  have fault : w.serializeTree deep = .error (.tooDeep 2) := rfl
  have refused : v.serializeTree long = .error (.longNumeral 640) :=
    (serializeTree_eq_error_iff ..).mpr (by decide +kernel)
  refine ⟨?_, ?_, ?_⟩
  · exact (write_tree_refines_walk w t).2.2.2.1 { maxDepth := 7, indentWidth := 3 } (by decide) rfl
      rfl _ text
  · exact ((write_tree_refines_walk w deep).2.2.1 { maxDepth := 2, indentWidth := 8 } rfl rfl
      _).mp fault
  · exact ((write_tree_refines_walk v long).2.2.2.2.2 640 refused).2

end Writer

end LiteralGrammar.Block
