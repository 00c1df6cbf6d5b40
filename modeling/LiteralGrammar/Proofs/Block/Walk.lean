import LiteralGrammar.Block.Tree

/-!
Trees without the writer: the first fault of a walk in document order, which knows no layout, and
the text of a tree, which knows no faults. Both recurse on the tree alone.
-/
namespace LiteralGrammar.Block

def Runtime.Prints (r : Runtime) (n : Int) : Prop :=
  ∀ most ∈ r.longestNumeral, (Text.ofNat n.natAbs).length ≤ most

theorem Runtime.fault?_eq_none_iff (r : Runtime) (n : Int) : r.fault? n = none ↔ r.Prints n := by
  simp [fault?, Prints]

def Key.Writable (r : Runtime) : Key → Prop
  | text _ => True
  | integer n => r.Prints n
  | _ => False

theorem Key.fault?_eq_none_iff (r : Runtime) (place : Place) (key : Key) :
    key.fault? r place = none ↔ key.Writable r := by
  cases key with
  | integer n => exact r.fault?_eq_none_iff n
  | _ => simp [fault?, Writable]

def Scalar.Writable (r : Runtime) : Scalar → Prop
  | integer n => r.Prints n
  | _ => True

theorem Scalar.fault?_eq_none_iff (r : Runtime) (s : Scalar) :
    s.fault? r = none ↔ s.Writable r := by
  cases s with
  | integer n => exact r.fault?_eq_none_iff n
  | _ => simp [fault?, Writable]

namespace Tree

def isContainer : Tree → Bool
  | sequence .. | mapping .. => true
  | _ => false

def isNested : Tree → Bool
  | sequence .. => true
  | mapping _ entries => !entries.isEmpty
  | _ => false

mutual

/-- `depth` counts the containers around the tree. -/
def firstFault? (r : Runtime) (limit depth : Int) (place : Place) : Tree → Option Fault
  | scalar s => s.fault? r
  | foreign typeName => some (.unsupported typeName place)
  | sequence _ items =>
    if limit < depth + 1 then some (.tooDeep limit)
    else itemsFault? r limit (depth + 1) place 0 items
  | mapping _ entries =>
    if limit < depth + 1 then some (.tooDeep limit)
    else entriesFault? r limit (depth + 1) place entries

def itemsFault? (r : Runtime) (limit depth : Int) (place : Place) (i : Nat) :
    List Tree → Option Fault
  | [] => none
  | t :: rest =>
    (t.firstFault? r limit depth (place ++ [.item i])).or
      (itemsFault? r limit depth place (i + 1) rest)

def entriesFault? (r : Runtime) (limit depth : Int) (place : Place) :
    List (Key × Tree) → Option Fault
  | [] => none
  | (key, t) :: rest =>
    (key.fault? r place).or <|
      (t.firstFault? r limit depth (place ++ [.key key.name])).or
        (entriesFault? r limit depth place rest)

end

mutual

def layout (width : Nat) (mode : Layout) : Tree → Text
  | scalar s => s.written width
  | foreign _ => []
  | sequence _ items =>
    match mode with
    | .inline => inlineSequence (itemLayouts width .inline items)
    | .block =>
      if items.isEmpty then "[]"
      else if items.any isContainer then hungItems (itemLayouts width .block items)
      else flatItems (itemLayouts width .inline items)
  | mapping _ entries =>
    match mode with
    | .inline => inlineMapping (inlineEntries width entries)
    | .block =>
      if entries.isEmpty then "\x7b\x7d" else Text.unlines (blockEntries width entries)

def itemLayouts (width : Nat) (mode : Layout) : List Tree → List Text
  | [] => []
  | t :: rest => t.layout width mode :: itemLayouts width mode rest

def inlineEntries (width : Nat) : List (Key × Tree) → List (Text × Text)
  | [] => []
  | (key, t) :: rest => (key.name, t.layout width .inline) :: inlineEntries width rest

def blockEntries (width : Nat) : List (Key × Tree) → List Text
  | [] => []
  | (key, t) :: rest =>
    let inner := if isNumeric key.name then .inline else .block
    blockEntry width key.name (t.layout width inner) t.isNested :: blockEntries width rest

end

theorem itemLayouts_eq_map (width : Nat) (mode : Layout) (items : List Tree) :
    itemLayouts width mode items = items.map (layout width mode) := by
  induction items with
  | nil => rfl
  | cons t rest ih => rw [itemLayouts, ih, List.map_cons]

theorem inlineEntries_eq_map (width : Nat) (entries : List (Key × Tree)) :
    inlineEntries width entries = entries.map fun e => (e.1.name, e.2.layout width .inline) := by
  induction entries with
  | nil => rfl
  | cons e rest ih => rw [inlineEntries, ih, List.map_cons]

theorem blockEntries_eq_map (width : Nat) (entries : List (Key × Tree)) :
    blockEntries width entries = entries.map fun e =>
      blockEntry width e.1.name
        (e.2.layout width (if isNumeric e.1.name then .inline else .block)) e.2.isNested := by
  induction entries with
  | nil => rfl
  | cons e rest ih => rw [blockEntries, ih, List.map_cons]

theorem layout_hung {items : List Tree} (nested : items.any isContainer = true) (width : Nat)
    (typeName : Text) :
    (sequence typeName items).layout width .block =
      hungItems (items.map (layout width .block)) := by
  cases items with
  | nil => simp at nested
  | cons t rest => simp [layout, nested, itemLayouts_eq_map]

theorem layout_flat {items : List Tree} (nonempty : items ≠ [])
    (flat : items.any isContainer = false) (width : Nat) (typeName : Text) :
    (sequence typeName items).layout width .block =
      flatItems (items.map (layout width .inline)) := by
  cases items with
  | nil => exact absurd rfl nonempty
  | cons t rest => simp [layout, flat, itemLayouts_eq_map]

theorem layout_entries {entries : List (Key × Tree)} (nonempty : entries ≠ []) (width : Nat)
    (typeName : Text) :
    (mapping typeName entries).layout width .block =
      Text.unlines (blockEntries width entries) := by
  cases entries with
  | nil => exact absurd rfl nonempty
  | cons e rest => rfl

@[induction_eliminator]
theorem ofChildren {motive : Tree → Prop} (scalar : ∀ s, motive (scalar s))
    (foreign : ∀ typeName, motive (foreign typeName))
    (sequence : ∀ typeName items, (∀ t ∈ items, motive t) → motive (sequence typeName items))
    (mapping : ∀ typeName entries, (∀ e ∈ entries, motive e.2) → motive (mapping typeName entries))
    (t : Tree) : motive t := by
  refine @Tree.rec motive (fun items => ∀ t ∈ items, motive t)
    (fun entries => ∀ e ∈ entries, motive e.2) (fun e => motive e.2)
    scalar foreign sequence mapping ?_ ?_ ?_ ?_ ?_ t
  · simp
  · intro t rest first later
    exact List.forall_mem_cons.mpr ⟨first, later⟩
  · simp
  · intro e rest first later
    exact List.forall_mem_cons.mpr ⟨first, later⟩
  · intro _ _ value
    exact value

inductive Writable (r : Runtime) : Tree → Prop where
  | scalar {s : Scalar} (printed : s.Writable r) : Writable r (scalar s)
  | sequence (typeName : Text) {items : List Tree} (each : ∀ t ∈ items, Writable r t) :
    Writable r (sequence typeName items)
  | mapping (typeName : Text) {entries : List (Key × Tree)}
    (keys : ∀ e ∈ entries, e.1.Writable r) (each : ∀ e ∈ entries, Writable r e.2) :
    Writable r (mapping typeName entries)

theorem writable_scalar_iff {r : Runtime} {s : Scalar} :
    (scalar s).Writable r ↔ s.Writable r := by
  refine ⟨fun writable => ?_, .scalar⟩
  cases writable with
  | scalar printed => exact printed

theorem not_writable_foreign {r : Runtime} (typeName : Text) : ¬(foreign typeName).Writable r := by
  intro writable
  cases writable

theorem writable_sequence_iff {r : Runtime} {typeName : Text} {items : List Tree} :
    (sequence typeName items).Writable r ↔ ∀ t ∈ items, t.Writable r := by
  refine ⟨fun writable => ?_, .sequence typeName⟩
  cases writable with
  | sequence _ each => exact each

theorem writable_mapping_iff {r : Runtime} {typeName : Text} {entries : List (Key × Tree)} :
    (mapping typeName entries).Writable r ↔
      (∀ e ∈ entries, e.1.Writable r) ∧ ∀ e ∈ entries, e.2.Writable r := by
  refine ⟨fun writable => ?_, fun each => .mapping typeName each.1 each.2⟩
  cases writable with
  | mapping _ keys each => exact ⟨keys, each⟩

theorem writable_text (r : Runtime) (t : Text) : (text t).Writable r := .scalar trivial

theorem writable_dict {r : Runtime} {entries : List (Text × Tree)}
    (each : ∀ e ∈ entries, e.2.Writable r) : (dict entries).Writable r :=
  .mapping "dict" (List.forall_mem_map.mpr fun _ _ => trivial) (List.forall_mem_map.mpr each)

mutual

def height : Tree → Nat
  | scalar _ => 0
  | foreign _ => 0
  | sequence _ items => itemsHeight items + 1
  | mapping _ entries => entriesHeight entries + 1

def itemsHeight : List Tree → Nat
  | [] => 0
  | t :: rest => max t.height (itemsHeight rest)

def entriesHeight : List (Key × Tree) → Nat
  | [] => 0
  | (_, t) :: rest => max t.height (entriesHeight rest)

end

theorem itemsHeight_le_iff (items : List Tree) (n : Nat) :
    itemsHeight items ≤ n ↔ ∀ t ∈ items, t.height ≤ n := by
  induction items with
  | nil => simp [itemsHeight]
  | cons t rest ih => rw [itemsHeight, Nat.max_le, ih, List.forall_mem_cons]

theorem entriesHeight_le_iff (entries : List (Key × Tree)) (n : Nat) :
    entriesHeight entries ≤ n ↔ ∀ e ∈ entries, e.2.height ≤ n := by
  induction entries with
  | nil => simp [entriesHeight]
  | cons e rest ih => rw [entriesHeight, Nat.max_le, ih, List.forall_mem_cons]

theorem height_list_le_iff (items : List Tree) (n : Nat) :
    (list items).height ≤ n + 1 ↔ ∀ t ∈ items, t.height ≤ n := by
  rw [list, height, Nat.succ_le_succ_iff, itemsHeight_le_iff]

theorem height_dict_le_iff (entries : List (Text × Tree)) (n : Nat) :
    (dict entries).height ≤ n + 1 ↔ ∀ e ∈ entries, e.2.height ≤ n := by
  rw [dict, height, Nat.succ_le_succ_iff, entriesHeight_le_iff, List.forall_mem_map]

section Sound

variable {r : Runtime} {limit depth : Int}

theorem itemsFault?_eq_none_iff {good : Tree → Prop} {items : List Tree}
    (each : ∀ t ∈ items, ∀ place, t.firstFault? r limit depth place = none ↔ good t)
    (place : Place) (i : Nat) :
    itemsFault? r limit depth place i items = none ↔ ∀ t ∈ items, good t := by
  induction items generalizing i with
  | nil => simp [itemsFault?]
  | cons t rest ih =>
    have each := List.forall_mem_cons.mp each
    rw [itemsFault?, Option.or_eq_none_iff, each.1, ih each.2, List.forall_mem_cons]

theorem entriesFault?_eq_none_iff {good : Key × Tree → Prop} {entries : List (Key × Tree)}
    (each : ∀ e ∈ entries, ∀ place, e.2.firstFault? r limit depth place = none ↔ good e)
    (place : Place) :
    entriesFault? r limit depth place entries = none ↔
      ∀ e ∈ entries, e.1.Writable r ∧ good e := by
  induction entries with
  | nil => simp [entriesFault?]
  | cons e rest ih =>
    have each := List.forall_mem_cons.mp each
    rw [entriesFault?, Option.or_eq_none_iff, Option.or_eq_none_iff, Key.fault?_eq_none_iff, each.1,
      ih each.2, List.forall_mem_cons, and_assoc]

/-- What is held fits below a container exactly if the container fits. -/
theorem room_iff {α : Type} {held : List α} {height : α → Nat} {most : Nat}
    (bound : ∀ n, most ≤ n ↔ ∀ x ∈ held, height x ≤ n) (shallow : depth + 1 ≤ limit) :
    (∀ x ∈ held, 0 < height x → depth + 1 + height x ≤ limit) ↔
      depth + (most + 1 : Nat) ≤ limit := by
  constructor
  · intro each
    have := (bound (limit - depth - 1).toNat).mpr fun x member => by
      have := each x member
      omega
    omega
  · intro room x member _
    have := (bound most).mp (Nat.le_refl _) x member
    omega

theorem height_pos {t : Tree} (container : t.isContainer = true) : 0 < t.height := by
  cases t with
  | scalar => cases container
  | foreign => cases container
  | sequence => rw [height]; omega
  | mapping => rw [height]; omega

theorem deep_iff {t : Tree} (container : t.isContainer = true) (deep : limit < depth + 1)
    (rest : Option Fault) :
    (if limit < depth + 1 then some (.tooDeep limit) else rest) = none ↔
      t.Writable r ∧ (0 < t.height → depth + t.height ≤ limit) := by
  rw [if_pos deep]
  simp only [reduceCtorEq, false_iff, not_and]
  intro _ room
  have positive := height_pos container
  have := room positive
  omega

theorem firstFault?_eq_none_iff (r : Runtime) (t : Tree) (limit depth : Int) (place : Place) :
    t.firstFault? r limit depth place = none ↔
      t.Writable r ∧ (0 < t.height → depth + t.height ≤ limit) := by
  induction t generalizing depth place with
  | scalar s =>
    rw [firstFault?, Scalar.fault?_eq_none_iff, writable_scalar_iff, height]
    exact ⟨fun printed => ⟨printed, fun below => absurd below (Nat.lt_irrefl 0)⟩, And.left⟩
  | foreign typeName =>
    rw [firstFault?]
    exact iff_of_false (Option.some_ne_none _) fun sound => not_writable_foreign typeName sound.1
  | sequence typeName items ih =>
    rw [firstFault?]
    by_cases deep : limit < depth + 1
    · exact deep_iff rfl deep _
    · have fits := room_iff (itemsHeight_le_iff items) (Int.not_lt.mp deep)
      rw [if_neg deep, itemsFault?_eq_none_iff fun t member => ih t member (depth + 1),
        writable_sequence_iff, height]
      simp only [imp_and, forall_and, fits, Nat.succ_pos, true_implies]
  | mapping typeName entries ih =>
    rw [firstFault?]
    by_cases deep : limit < depth + 1
    · exact deep_iff rfl deep _
    · have fits := room_iff (entriesHeight_le_iff entries) (Int.not_lt.mp deep)
      rw [if_neg deep, entriesFault?_eq_none_iff fun e member => ih e member (depth + 1),
        writable_mapping_iff, height]
      simp only [imp_and, forall_and, fits, Nat.succ_pos, true_implies, and_assoc]

end Sound

inductive HasInteger (n : Int) : Tree → Prop where
  | scalar : HasInteger n (scalar (.integer n))
  | item {typeName : Text} {items : List Tree} {t : Tree} (member : t ∈ items)
    (below : HasInteger n t) : HasInteger n (sequence typeName items)
  | key {typeName : Text} {entries : List (Key × Tree)} {t : Tree}
    (member : (.integer n, t) ∈ entries) : HasInteger n (mapping typeName entries)
  | value {typeName : Text} {entries : List (Key × Tree)} {e : Key × Tree} (member : e ∈ entries)
    (below : HasInteger n e.2) : HasInteger n (mapping typeName entries)

theorem prints_of_writable {r : Runtime} {t : Tree} {n : Int} (writable : t.Writable r)
    (inside : t.HasInteger n) : r.Prints n := by
  induction inside with
  | scalar => exact writable_scalar_iff.mp writable
  | item member _ ih => exact ih (writable_sequence_iff.mp writable _ member)
  | key member => exact (writable_mapping_iff.mp writable).1 _ member
  | value member _ ih => exact ih ((writable_mapping_iff.mp writable).2 _ member)

section Long

variable {r : Runtime} {limit depth : Int} {place : Place} {most : Nat}

theorem exists_of_itemsFault? {items : List Tree} {i : Nat} {f : Fault}
    (faulty : itemsFault? r limit depth place i items = some f) :
    ∃ t ∈ items, ∃ place, t.firstFault? r limit depth place = some f := by
  induction items generalizing i with
  | nil => cases faulty
  | cons t rest ih =>
    rcases Option.or_eq_some_iff.mp faulty with first | ⟨-, later⟩
    · exact ⟨t, List.mem_cons_self, _, first⟩
    · obtain ⟨u, member, found⟩ := ih later
      exact ⟨u, List.mem_cons_of_mem t member, found⟩

theorem exists_of_entriesFault? {entries : List (Key × Tree)} {f : Fault}
    (faulty : entriesFault? r limit depth place entries = some f) :
    ∃ e ∈ entries, e.1.fault? r place = some f ∨
      ∃ place, e.2.firstFault? r limit depth place = some f := by
  induction entries with
  | nil => cases faulty
  | cons e rest ih =>
    rcases Option.or_eq_some_iff.mp faulty with key | ⟨-, faulty⟩
    · exact ⟨e, List.mem_cons_self, .inl key⟩
    · rcases Option.or_eq_some_iff.mp faulty with value | ⟨-, later⟩
      · exact ⟨e, List.mem_cons_self, .inr ⟨_, value⟩⟩
      · obtain ⟨e', member, found⟩ := ih later
        exact ⟨e', List.mem_cons_of_mem e member, found⟩

theorem long_of_fault? {n : Int} (refused : r.fault? n = some (.longNumeral most)) :
    r.longestNumeral = some most ∧ most < (Text.ofNat n.natAbs).length := by
  simp only [Runtime.fault?, Option.map_eq_some_iff, Option.filter_eq_some_iff] at refused
  obtain ⟨_, ⟨limited, longer⟩, same⟩ := refused
  cases same
  exact ⟨limited, of_decide_eq_true longer⟩

theorem long_of_key_fault? {key : Key} (refused : key.fault? r place = some (.longNumeral most)) :
    ∃ n, key = .integer n ∧ r.fault? n = some (.longNumeral most) := by
  cases key with
  | integer n => exact ⟨n, rfl, refused⟩
  | _ => cases refused

theorem long_of_firstFault? {t : Tree}
    (faulty : t.firstFault? r limit depth place = some (.longNumeral most)) :
    r.longestNumeral = some most ∧
      ∃ n, t.HasInteger n ∧ most < (Text.ofNat n.natAbs).length := by
  induction t generalizing depth place with
  | scalar s =>
    cases s with
    | integer n =>
      obtain ⟨limited, longer⟩ := long_of_fault? faulty
      exact ⟨limited, n, .scalar, longer⟩
    | _ => cases faulty
  | foreign typeName => cases faulty
  | sequence typeName items ih =>
    rw [firstFault?] at faulty
    split at faulty
    case isTrue => cases faulty
    case isFalse =>
      obtain ⟨t, member, place, found⟩ := exists_of_itemsFault? faulty
      obtain ⟨limited, n, inside, longer⟩ := ih t member found
      exact ⟨limited, n, .item member inside, longer⟩
  | mapping typeName entries ih =>
    rw [firstFault?] at faulty
    split at faulty
    case isTrue => cases faulty
    case isFalse =>
      obtain ⟨⟨key, t⟩, member, refused | ⟨place, found⟩⟩ := exists_of_entriesFault? faulty
      · obtain ⟨n, rfl, refused⟩ := long_of_key_fault? refused
        obtain ⟨limited, longer⟩ := long_of_fault? refused
        exact ⟨limited, n, .key member, longer⟩
      · obtain ⟨limited, n, inside, longer⟩ := ih _ member found
        exact ⟨limited, n, .value member inside, longer⟩

end Long

end Tree

end LiteralGrammar.Block
