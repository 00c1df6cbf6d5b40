import LiteralGrammar.FileTree.Path
import LiteralGrammar.Proofs.Text.Words

/-!
Spellings of paths. The text of a path is its normal form: read again, it gives the same path.
-/
namespace LiteralGrammar.Path

structure IsComponent (part : Text) : Prop where
  nonempty : part ≠ []
  moves : part ≠ "."
  whole : '/' ∉ part

def components (t : Text) : List Text := (t.splitOn '/').filter fun part => part ≠ [] ∧ part ≠ "."

theorem isComponent_of_mem {t part : Text} (member : part ∈ components t) : IsComponent part := by
  obtain ⟨inside, kept⟩ := List.mem_filter.mp member
  obtain ⟨nonempty, moves⟩ := of_decide_eq_true kept
  refine ⟨nonempty, moves, fun slash => ?_⟩
  simpa using (Text.mem_splitOnP inside '/' slash).2

theorem components_slash (t : Text) : components ('/' :: t) = components t := by
  have split : List.splitOn '/' ('/' :: t) = [] :: List.splitOn '/' t :=
    List.splitOn_append_cons_self [] t
  rw [components, split]
  exact List.filter_cons_of_neg (by simp)

theorem components_join {parts : List Text} (normal : ∀ part ∈ parts, IsComponent part) :
    components (Text.join "/" parts) = parts := by
  by_cases none : parts = []
  · subst none
    rfl
  · have split : (Text.join "/" parts).splitOn '/' = parts :=
      List.splitOn_intercalate '/' (fun part member => (normal part member).whole) none
    rw [components, split, List.filter_eq_self]
    intro part member
    obtain ⟨nonempty, moves, _⟩ := normal part member
    exact decide_eq_true ⟨nonempty, moves⟩

def IsRoot (root : Text) : Prop := root = [] ∨ root = "/" ∨ root = "//"

theorem isRoot_rootOf (t : Text) : IsRoot (rootOf t) := by
  rw [rootOf]
  split
  · exact Or.inl rfl
  · exact Or.inr (Or.inr rfl)
  · exact Or.inr (Or.inl rfl)

theorem rootOf_append {root body : Text} (isRoot : IsRoot root) (stops : body.head? ≠ some '/') :
    rootOf (root ++ body) = root := by
  have none : body.takeWhile (fun c => decide (c = '/')) = [] := by
    cases body with
    | nil => rfl
    | cons c rest => exact List.takeWhile_cons_of_neg (by simpa using stops)
  rcases isRoot with rfl | rfl | rfl <;> simp [rootOf, none]

theorem components_append {root : Text} (isRoot : IsRoot root) (body : Text) :
    components (root ++ body) = components body := by
  rcases isRoot with rfl | rfl | rfl
  · rfl
  · exact components_slash body
  · exact (components_slash _).trans (components_slash body)

theorem head?_join {parts : List Text} (normal : ∀ part ∈ parts, IsComponent part) :
    (Text.join "/" parts).head? ≠ some '/' := by
  cases parts with
  | nil => simp [Text.join]
  | cons part rest =>
    have component := normal part (List.mem_cons_self ..)
    obtain ⟨c, tail, rfl⟩ := List.exists_cons_of_ne_nil component.nonempty
    have first : c ≠ '/' := fun same => component.whole (same ▸ List.mem_cons_self ..)
    cases rest <;> simpa [Text.join] using first

theorem ofText_of_component {name : Text} (component : IsComponent name) :
    ofText name = ⟨[], [name]⟩ := by
  have normal : ∀ part ∈ [name], IsComponent part := by simpa using component
  have joined : Text.join "/" [name] = name := by simp [Text.join]
  have parts := components_join normal
  have stops := head?_join normal
  rw [joined] at parts stops
  have root : rootOf name = [] := rootOf_append (Or.inl rfl) stops
  change Path.mk (rootOf name) (components name) = _
  rw [root, parts]

theorem ofText_text (t : Text) : ofText (ofText t).text = ofText t := by
  have normal : ∀ part ∈ (ofText t).parts, IsComponent part := fun _ => isComponent_of_mem
  have isRoot : IsRoot (ofText t).root := isRoot_rootOf t
  generalize ofText t = p at normal isRoot
  rw [text]
  split
  · next here =>
    obtain ⟨root, parts⟩ := p
    obtain ⟨rfl, rfl⟩ := here
    rfl
  · change (⟨rootOf _, components _⟩ : Path) = p
    rw [rootOf_append isRoot (head?_join normal), components_append isRoot, components_join normal]

end LiteralGrammar.Path
