import LiteralGrammar.FileTree.Directory

/-!
Where paths lead. A walk that succeeds ends where the components alone say, and all it needs of a
tree are the directories on the way; so it ends there in every tree that has these too. Making
directories adds to a tree only what is missing on the way.
-/
namespace LiteralGrammar

namespace Location

def along (here : Location) : List Text → Location
  | [] => here
  | name :: rest => if name = ".." then along here.dropLast rest else along (here ++ [name]) rest

def trail (here : Location) : List Text → List Location
  | [] => []
  | name :: rest =>
    if name = ".." then trail here.dropLast rest
    else (here ++ [name]) :: trail (here ++ [name]) rest

theorem along_concat (here : Location) (parts : List Text) {name : Text} (named : name ≠ "..") :
    along here (parts ++ [name]) = along here parts ++ [name] := by
  induction parts generalizing here with
  | nil => exact if_neg named
  | cons first rest ih =>
    rw [List.cons_append, along, along]
    split
    · exact ih here.dropLast
    · exact ih (here ++ [first])

end Location

namespace Path

def directories (p : Path) : List Location := Location.trail [] p.parent.parts

def destination (p : Path) : Location := Location.along [] p.parts

theorem destination_eq {p : Path} {last : Text} (ends : p.parts.getLast? = some last)
    (named : last ≠ "..") : p.destination = Location.along [] p.parent.parts ++ [last] := by
  obtain ⟨front, same⟩ := List.getLast?_eq_some_iff.mp ends
  rw [destination, parent, same, List.dropLast_concat]
  exact Location.along_concat [] front named

end Path

namespace FileTree

def HasDirectory (t : FileTree) (l : Location) : Prop := ∃ mode, t.find? l = some (.directory mode)

structure Walkable (t : FileTree) (here : Location) (parts : List Text) : Prop where
  short : ∀ name ∈ parts, isTooLong name = false
  passed : ∀ l ∈ Location.trail here parts, t.HasDirectory l

theorem walkable_nil (t : FileTree) (here : Location) : t.Walkable here [] := ⟨by simp, nofun⟩

theorem walkable_up_iff (t : FileTree) (here : Location) (rest : List Text) :
    t.Walkable here ((".." : Text) :: rest) ↔ t.Walkable here.dropLast rest := by
  have short : isTooLong ("..":Text) = false := by decide
  constructor
  · intro walkable
    exact ⟨(List.forall_mem_cons.mp walkable.short).2,
      by simpa [Location.trail] using walkable.passed⟩
  · intro walkable
    exact ⟨List.forall_mem_cons.mpr ⟨short, walkable.short⟩,
      by simpa [Location.trail] using walkable.passed⟩

theorem walkable_down_iff (t : FileTree) (here : Location) {name : Text} (named : name ≠ "..")
    (rest : List Text) :
    t.Walkable here (name :: rest) ↔
      isTooLong name = false ∧ t.HasDirectory (here ++ [name]) ∧
        t.Walkable (here ++ [name]) rest := by
  have trail : Location.trail here (name :: rest) =
      (here ++ [name]) :: Location.trail (here ++ [name]) rest := if_neg named
  constructor
  · intro walkable
    obtain ⟨short, shorts⟩ := List.forall_mem_cons.mp walkable.short
    obtain ⟨first, passed⟩ := List.forall_mem_cons.mp (trail ▸ walkable.passed)
    exact ⟨short, first, shorts, passed⟩
  · intro read
    obtain ⟨short, first, shorts, passed⟩ := read
    exact ⟨List.forall_mem_cons.mpr ⟨short, shorts⟩,
      trail ▸ List.forall_mem_cons.mpr ⟨first, passed⟩⟩

theorem walk_eq_ok_iff (t : FileTree) (here : Location) (parts : List Text) (l : Location) :
    t.walk here parts = .ok l ↔ t.Walkable here parts ∧ l = Location.along here parts := by
  induction parts generalizing here with
  | nil => simp [walk, walkable_nil, Location.along, eq_comm]
  | cons name rest ih =>
    by_cases up : name = ".."
    · subst up
      rw [walk, if_pos rfl, ih, walkable_up_iff, Location.along, if_pos rfl]
    · rw [walk, if_neg up, walkable_down_iff t here up, Location.along, if_neg up]
      cases short : isTooLong name with
      | true => simp
      | false =>
        cases found : t.find? (here ++ [name]) with
        | none => simp [HasDirectory, found]
        | some e =>
          cases e with
          | file content mode => simp [HasDirectory, found, FileEntry.isDirectory]
          | directory mode => simp [HasDirectory, found, FileEntry.isDirectory, ih]

/-- What a path names, its last component not leading up, is beside where its parent leads. -/
theorem locate_eq_ok_iff {p : Path} {last : Text} (ends : p.parts.getLast? = some last)
    (named : last ≠ "..") (t : FileTree) (l : Location) :
    t.locate p = .ok l ↔ p.refused? = none ∧ t.Walkable [] p.parent.parts ∧
      isTooLong last = false ∧ l = p.destination := by
  rw [locate, ends, Path.destination_eq ends named]
  cases p.refused? with
  | some e => simp
  | none =>
    simp only [if_neg named]
    cases walked : t.walk [] p.parent.parts with
    | error e =>
      have blocked : ¬t.Walkable [] p.parent.parts := fun walkable => by
        rw [(walk_eq_ok_iff ..).mpr ⟨walkable, rfl⟩] at walked
        cases walked
      simp [blocked, bind, Except.bind]
    | ok dir =>
      obtain ⟨walkable, rfl⟩ := (walk_eq_ok_iff ..).mp walked
      cases isTooLong last <;> simp [walkable, bind, Except.bind, eq_comm]

theorem Walkable.of_directories {t u : FileTree} {here : Location} {parts : List Text}
    (same : ∀ l, t.HasDirectory l → u.HasDirectory l) (walkable : t.Walkable here parts) :
    u.Walkable here parts :=
  ⟨walkable.short, fun l member => same l (walkable.passed l member)⟩

theorem locate_iff_of_directories {t u : FileTree} (same : ∀ l, u.HasDirectory l ↔ t.HasDirectory l)
    (p : Path) (l : Location) : u.locate p = .ok l ↔ t.locate p = .ok l := by
  have walkable : ∀ parts, u.Walkable [] parts ↔ t.Walkable [] parts := fun _ =>
    ⟨.of_directories fun l => (same l).mp, .of_directories fun l => (same l).mpr⟩
  cases ends : p.parts.getLast? with
  | none => cases refused : p.refused? <;> simp [locate, ends, refused]
  | some last =>
    by_cases up : last = ".."
    · cases refused : p.refused? with
      | some e => simp [locate, refused]
      | none =>
        simp only [locate, ends, refused, if_pos up]
        rw [walk_eq_ok_iff, walk_eq_ok_iff, walkable]
    · rw [locate_eq_ok_iff ends up, locate_eq_ok_iff ends up, walkable]

/-- All entries are kept, and where there was nothing before there are only new directories, each at
one of the given locations. -/
structure Extends (t u : FileTree) (made : List Location) : Prop where
  umask : u.umask = t.umask
  kept : ∀ l e, t.find? l = some e → u.find? l = some e
  new : ∀ l, t.find? l = none →
    u.find? l = none ∨ l ∈ made ∧ u.find? l = some (.directory t.newDirectoryMode)

namespace Extends

variable {t u v : FileTree} {made more : List Location}

theorem of_same (umask : u.umask = t.umask) (same : ∀ l, u.find? l = t.find? l) :
    Extends t u made :=
  ⟨umask, fun l _ found => (same l).trans found, fun l absent => Or.inl ((same l).trans absent)⟩

theorem refl (t : FileTree) (made : List Location) : Extends t t made := of_same rfl fun _ => rfl

theorem mono (extended : Extends t u made) (sub : made ⊆ more) : Extends t u more :=
  ⟨extended.umask, extended.kept, fun l absent => (extended.new l absent).imp_right
    fun added => ⟨sub added.1, added.2⟩⟩

theorem trans (first : Extends t u made) (second : Extends u v made) : Extends t v made := by
  have mode : u.newDirectoryMode = t.newDirectoryMode := by
    rw [newDirectoryMode, newDirectoryMode, permitted, permitted, first.umask]
  refine ⟨second.umask.trans first.umask, ?_, ?_⟩
  · exact fun l e found => second.kept l e (first.kept l e found)
  · intro l absent
    rcases first.new l absent with still | ⟨member, found⟩
    · rw [← mode]
      exact second.new l still
    · exact Or.inr ⟨member, second.kept l _ found⟩

theorem insert {l : Location} (absent : t.find? l = none) (member : l ∈ made) :
    Extends t (t.insert l (.directory t.newDirectoryMode)) made := by
  refine ⟨rfl, ?_, ?_⟩
  · intro k e found
    have apart : k ≠ l := fun same => by simp [same, absent] at found
    rwa [find?_insert, if_neg apart]
  · intro k nothing
    rw [find?_insert]
    split
    · next same => exact Or.inr ⟨same ▸ member, rfl⟩
    · exact Or.inl nothing

theorem hasDirectory (extended : Extends t u made) {l : Location} (found : t.HasDirectory l) :
    u.HasDirectory l :=
  found.imp fun _ => extended.kept l _

end Extends

/-- Whether or not the last directory can be made, nothing changes but that directories on the way
are added. -/
theorem descend_extends (t : FileTree) (making : Bool) (passed : List Text) (here : Location)
    (parts : List Text) :
    Extends t (t.descend making passed here parts).1 (Location.trail here parts) := by
  induction parts generalizing t making passed here with
  | nil => exact .refl t _
  | cons name rest ih =>
    rw [descend, Location.trail]
    by_cases up : name = ".."
    · rw [if_pos up, if_pos up]
      exact ih t making _ here.dropLast
    · rw [if_neg up, if_neg up]
      have below : ∀ u making', Extends u
          (u.descend making' (passed ++ [name]) (here ++ [name]) rest).1
          ((here ++ [name]) :: Location.trail (here ++ [name]) rest) :=
        fun u making' => (ih u making' _ _).mono (List.subset_cons_self ..)
      split
      · exact .refl t _
      · split
        · exact below t making
        · exact .refl t _
        · next absent => exact (Extends.insert absent (List.mem_cons_self ..)).trans (below _ true)

theorem descend_eq_ok {t u : FileTree} {making : Bool} {passed : List Text} {here l : Location}
    {parts : List Text} (done : t.descend making passed here parts = (u, .ok l)) :
    u.Walkable here parts ∧ l = Location.along here parts := by
  induction parts generalizing t making passed here with
  | nil =>
    obtain ⟨-, same⟩ := Prod.mk.inj done
    exact ⟨walkable_nil u here, (Except.ok.inj same).symm⟩
  | cons name rest ih =>
    rw [descend] at done
    by_cases up : name = ".."
    · subst up
      rw [if_pos rfl] at done
      rw [walkable_up_iff, Location.along, if_pos rfl]
      exact ih done
    · rw [if_neg up] at done
      rw [walkable_down_iff u here up, Location.along, if_neg up]
      -- The rest is made from a tree that has the first directory, and keeps it.
      have below : ∀ {v : FileTree} {making' : Bool}, v.HasDirectory (here ++ [name]) →
          v.descend making' (passed ++ [name]) (here ++ [name]) rest = (u, .ok l) →
          u.HasDirectory (here ++ [name]) ∧ u.Walkable (here ++ [name]) rest ∧
            l = Location.along (here ++ [name]) rest := by
        intro v making' there done
        have extended := v.descend_extends making' (passed ++ [name]) (here ++ [name]) rest
        rw [done] at extended
        exact ⟨extended.hasDirectory there, ih done⟩
      cases short : isTooLong name with
      | true => simp [short] at done
      | false =>
        rw [short, if_neg Bool.false_ne_true] at done
        split at done
        · next mode found =>
          obtain ⟨first, walkable, same⟩ := below ⟨mode, found⟩ done
          exact ⟨⟨rfl, first, walkable⟩, same⟩
        · cases done
        · have there : (t.insert (here ++ [name]) (.directory t.newDirectoryMode)).HasDirectory
              (here ++ [name]) := ⟨_, by rw [find?_insert, if_pos rfl]⟩
          obtain ⟨first, walkable, same⟩ := below there done
          exact ⟨⟨rfl, first, walkable⟩, same⟩

theorem ensureDirectory_extends (t : FileTree) (p : Path) :
    Extends t (t.ensureDirectory p).1 (Location.trail [] p.parts) := by
  rw [ensureDirectory]
  split
  · exact .refl t _
  · exact t.descend_extends false [] [] p.parts

theorem ensureDirectory_eq_ok {t u : FileTree} {p : Path} {l : Location}
    (made : t.ensureDirectory p = (u, .ok l)) :
    u.Walkable [] p.parts ∧ l = Location.along [] p.parts := by
  rw [ensureDirectory] at made
  split at made
  · cases made
  · exact descend_eq_ok made

end FileTree

end LiteralGrammar
