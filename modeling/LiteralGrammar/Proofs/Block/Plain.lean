import LiteralGrammar.Proofs.Block.Walk

/-!
What the writer does not see in a tree: which kind of sequence or mapping a container is, and
whether a key is an integer or its digits, if the integer is printed.
-/
namespace LiteralGrammar.Block

instance (r : Runtime) (n : Int) : Decidable (r.Prints n) :=
  decidable_of_iff _ (r.fault?_eq_none_iff n)

def Key.plain (r : Runtime) : Key → Key
  | integer n => if r.Prints n then text (Text.ofInt n) else integer n
  | key => key

theorem Key.plain_integer (r : Runtime) (n : Int) :
    (integer n).plain r = text (Text.ofInt n) ∧ r.Prints n ∨ (integer n).plain r = integer n := by
  rw [plain]
  by_cases printed : r.Prints n
  · exact .inl ⟨if_pos printed, printed⟩
  · exact .inr (if_neg printed)

theorem Key.fault?_plain (r : Runtime) (place : Place) (key : Key) :
    (key.plain r).fault? r place = key.fault? r place := by
  cases key with
  | integer n =>
    rcases plain_integer r n with ⟨same, printed⟩ | same
    · rw [same]
      exact ((integer n).fault?_eq_none_iff r place |>.mpr printed).symm
    · rw [same]
  | _ => rfl

theorem Key.name_plain (r : Runtime) (key : Key) : (key.plain r).name = key.name := by
  cases key with
  | integer n =>
    rcases plain_integer r n with ⟨same, -⟩ | same
    · rw [same]
      rfl
    · rw [same]
  | _ => rfl

namespace Tree

mutual

def plain (r : Runtime) : Tree → Tree
  | scalar s => scalar s
  | foreign typeName => foreign typeName
  | sequence _ items => sequence "list" (plainItems r items)
  | mapping _ entries => mapping "dict" (plainEntries r entries)

def plainItems (r : Runtime) : List Tree → List Tree
  | [] => []
  | t :: rest => t.plain r :: plainItems r rest

def plainEntries (r : Runtime) : List (Key × Tree) → List (Key × Tree)
  | [] => []
  | (key, t) :: rest => (key.plain r, t.plain r) :: plainEntries r rest

end

variable {r : Runtime}

theorem plainItems_eq_map (items : List Tree) : plainItems r items = items.map (plain r) := by
  induction items with
  | nil => rfl
  | cons t rest ih => rw [plainItems, ih, List.map_cons]

theorem plainEntries_eq_map (entries : List (Key × Tree)) :
    plainEntries r entries = entries.map fun e => (e.1.plain r, e.2.plain r) := by
  induction entries with
  | nil => rfl
  | cons e rest ih => rw [plainEntries, ih, List.map_cons]

theorem isContainer_plain (t : Tree) : (t.plain r).isContainer = t.isContainer := by
  cases t <;> rfl

theorem isNested_plain (t : Tree) : (t.plain r).isNested = t.isNested := by
  cases t with
  | mapping typeName entries => cases entries <;> rfl
  | _ => rfl

theorem itemsFault?_plain {items : List Tree}
    (each : ∀ t ∈ items, ∀ limit depth place,
      (t.plain r).firstFault? r limit depth place = t.firstFault? r limit depth place)
    (limit depth : Int) (place : Place) (i : Nat) :
    itemsFault? r limit depth place i (plainItems r items) = itemsFault? r limit depth place i items := by
  induction items generalizing i with
  | nil => rfl
  | cons t rest ih =>
    have each := List.forall_mem_cons.mp each
    rw [plainItems, itemsFault?, each.1, ih each.2, itemsFault?]

theorem entriesFault?_plain {entries : List (Key × Tree)}
    (each : ∀ e ∈ entries, ∀ limit depth place,
      (e.2.plain r).firstFault? r limit depth place = e.2.firstFault? r limit depth place)
    (limit depth : Int) (place : Place) :
    entriesFault? r limit depth place (plainEntries r entries) =
      entriesFault? r limit depth place entries := by
  induction entries with
  | nil => rfl
  | cons e rest ih =>
    have each := List.forall_mem_cons.mp each
    rw [plainEntries, entriesFault?, Key.fault?_plain, Key.name_plain, each.1, ih each.2,
      entriesFault?]

theorem firstFault?_plain (r : Runtime) (t : Tree) (limit depth : Int) (place : Place) :
    (t.plain r).firstFault? r limit depth place = t.firstFault? r limit depth place := by
  induction t generalizing limit depth place with
  | scalar s => rfl
  | foreign typeName => rfl
  | sequence typeName items ih =>
    rw [plain, firstFault?, itemsFault?_plain ih, firstFault?]
  | mapping typeName entries ih =>
    rw [plain, firstFault?, entriesFault?_plain ih, firstFault?]

theorem itemLayouts_plain {width : Nat} {items : List Tree}
    (each : ∀ t ∈ items, ∀ mode, (t.plain r).layout width mode = t.layout width mode) (mode : Layout) :
    itemLayouts width mode (plainItems r items) = itemLayouts width mode items := by
  rw [plainItems_eq_map, itemLayouts_eq_map, itemLayouts_eq_map, List.map_map]
  exact List.map_congr_left fun t member => each t member mode

theorem inlineEntries_plain {width : Nat} {entries : List (Key × Tree)}
    (each : ∀ e ∈ entries, ∀ mode, (e.2.plain r).layout width mode = e.2.layout width mode) :
    inlineEntries width (plainEntries r entries) = inlineEntries width entries := by
  rw [plainEntries_eq_map, inlineEntries_eq_map, inlineEntries_eq_map, List.map_map]
  apply List.map_congr_left
  intro e member
  rw [Function.comp_apply, Key.name_plain, each e member]

theorem blockEntries_plain {width : Nat} {entries : List (Key × Tree)}
    (each : ∀ e ∈ entries, ∀ mode, (e.2.plain r).layout width mode = e.2.layout width mode) :
    blockEntries width (plainEntries r entries) = blockEntries width entries := by
  rw [plainEntries_eq_map, blockEntries_eq_map, blockEntries_eq_map, List.map_map]
  apply List.map_congr_left
  intro e member
  rw [Function.comp_apply, Key.name_plain, each e member, isNested_plain]

theorem layout_plain (r : Runtime) (t : Tree) (width : Nat) (mode : Layout) :
    (t.plain r).layout width mode = t.layout width mode := by
  induction t generalizing mode with
  | scalar s => rfl
  | foreign typeName => rfl
  | sequence typeName items ih =>
    have empty : (plainItems r items).isEmpty = items.isEmpty := by
      rw [plainItems_eq_map, List.isEmpty_map]
    have containers : (plainItems r items).any isContainer = items.any isContainer := by
      rw [plainItems_eq_map, List.any_map]
      exact congrArg items.any (funext isContainer_plain)
    cases mode with
    | inline => rw [plain, layout, layout, itemLayouts_plain ih]
    | block =>
      rw [plain, layout, layout, empty, containers, itemLayouts_plain ih, itemLayouts_plain ih]
  | mapping typeName entries ih =>
    have empty : (plainEntries r entries).isEmpty = entries.isEmpty := by
      rw [plainEntries_eq_map, List.isEmpty_map]
    cases mode with
    | inline => rw [plain, layout, layout, inlineEntries_plain ih]
    | block => rw [plain, layout, layout, empty, blockEntries_plain ih]

end Tree

end LiteralGrammar.Block
