import LiteralGrammar.FileTree.Replace
import LiteralGrammar.Proofs.FileTree.Spelling
import LiteralGrammar.Proofs.FileTree.Walk
import Mathlib.Data.List.Basic

/-!
What replacing a file does to a tree. If it succeeds, one file holds the content, with the mode of
the file that it takes the place of, and nothing else is new but the directories above it; if it
fails, nothing is new but some of these.
-/
namespace LiteralGrammar.FileTree

def modeAt (t : FileTree) (l : Location) : Nat :=
  ((t.find? l).map FileEntry.mode).getD t.newFileMode

/-- The second tree differs from the first in the file at a location, and in directories that were
missing above it. -/
structure Replaced (t : FileTree) (p : Path) (content : List UInt8) (l : Location) (u : FileTree) :
    Prop where
  destination : l = p.destination
  located : u.locate p = .ok l
  replaceable : ¬t.HasDirectory l
  held : u.find? l = some (.file content (t.modeAt l))
  kept : ∀ k e, k ≠ l → t.find? k = some e → u.find? k = some e
  new : ∀ k, k ≠ l → t.find? k = none →
    u.find? k = if k ∈ p.directories then some (.directory t.newDirectoryMode) else none
  umask : u.umask = t.umask

theorem get_of_locate {t : FileTree} {p : Path} {l : Location} {e : FileEntry}
    (located : t.locate p = .ok l) (found : t.find? l = some e) : t.get p = .ok e := by
  simp [get, located, found, bind, Except.bind]

theorem modeFor_of_locate {t : FileTree} {p : Path} {l : Location} (located : t.locate p = .ok l) :
    t.modeFor p = .ok (t.modeAt l) := by
  cases found : t.find? l with
  | none =>
    have absent : t.get p = .error .missing := by simp [get, located, found, bind, Except.bind]
    rw [modeFor, absent, modeAt, found]
    rfl
  | some e =>
    rw [modeFor, get_of_locate located found, modeAt, found]
    rfl

/-- The temporary file is not the destination. -/
theorem temporaryName_ne (name : Text) (stamp : Stamp) : temporaryName name stamp ≠ name := by
  intro same
  have lengths := congrArg List.length same
  simp only [temporaryName, List.length_append] at lengths
  have dot : 0 < (".".toList : Text).length := by decide
  omega

theorem createTemporary_eq_ok {t staged : FileTree} {dir temporary : Location} {name : Text}
    {content : List UInt8} {stamps : List Stamp}
    (created : t.createTemporary dir name content stamps = .ok (staged, temporary)) :
    t.find? temporary = none ∧ (∃ s, temporary = dir ++ [temporaryName name s]) ∧
      staged = t.insert temporary (.file content 0o600) := by
  induction stamps with
  | nil => cases created
  | cons stamp later ih =>
    rw [createTemporary] at created
    split at created
    · cases created
    · split at created
      · cases created
      · split at created
        · next absent =>
          obtain ⟨rfl, rfl⟩ := Prod.mk.inj (Except.ok.inj created)
          exact ⟨absent, ⟨stamp, rfl⟩, rfl⟩
        · exact ih created

theorem rename_eq_ok {t u : FileTree} {source : Location} {p : Path}
    (moved : t.rename source p = .ok u) :
    ∃ last l e, p.parts.getLast? = some last ∧ last ≠ ".." ∧ t.locate p = .ok l ∧
      ¬t.HasDirectory l ∧ t.find? source = some e ∧ u = (t.erase source).insert l e := by
  rw [rename] at moved
  split at moved
  · cases moved
  · next last ends =>
    split at moved
    · cases moved
    · next named =>
      cases located : t.locate p with
      | error e => simp [located, bind, Except.bind] at moved
      | ok l =>
        simp only [located, bind, Except.bind] at moved
        split at moved
        · cases moved
        · next e found free =>
          refine ⟨last, l, e, ends, named, rfl, ?_, found, (Except.ok.inj moved).symm⟩
          intro directory
          obtain ⟨mode, there⟩ := directory
          exact free mode there
        · cases moved

def Holds (t : FileTree) (l : Location) (content : List UInt8) (mode : Nat) (u : FileTree) : Prop :=
  ∀ k, u.find? k = if k = l then some (.file content mode) else t.find? k

section Placed

variable {t u : FileTree} {l : Location} {content : List UInt8} {mode : Nat}

theorem holds_insert (t : FileTree) (l : Location) (content : List UInt8) (mode : Nat) :
    Holds t l content mode (t.insert l (.file content mode)) := fun k => t.find?_insert l k _

theorem Holds.replace {content' : List UInt8} {mode' : Nat} (holds : Holds t l content mode u) :
    Holds t l content' mode' (u.insert l (.file content' mode')) := by
  intro k
  rw [find?_insert, holds]
  split <;> rfl

theorem Holds.hasDirectory_iff (holds : Holds t l content mode u) (free : ¬t.HasDirectory l)
    (k : Location) : u.HasDirectory k ↔ t.HasDirectory k := by
  rw [HasDirectory, HasDirectory, holds]
  split
  · next same =>
    subst same
    simpa [HasDirectory] using free
  · rfl

theorem not_hasDirectory_of_absent (absent : t.find? l = none) : ¬t.HasDirectory l := by
  simp [HasDirectory, absent]

end Placed

section Settling

variable {t u : FileTree} {temporary : Location} {p : Path} {s : Stamp} {content : List UInt8}

theorem rename_temporary {v : FileTree} {mode : Nat} (absent : t.find? temporary = none)
    (beside : temporary = Location.along [] p.parent.parts ++ [temporaryName p.name s])
    (staged : Holds t temporary content mode v) (moved : v.rename temporary p = .ok u) :
    ∃ l, l = p.destination ∧ t.locate p = .ok l ∧ u.locate p = .ok l ∧ ¬t.HasDirectory l ∧
      l ≠ temporary ∧ u.umask = v.umask ∧ Holds t l content mode u := by
  obtain ⟨last, l, e, ends, named, located, free, found, rfl⟩ := rename_eq_ok moved
  have dirs := staged.hasDirectory_iff (not_hasDirectory_of_absent absent)
  have located := (locate_iff_of_directories dirs p l).mp located
  have free : ¬t.HasDirectory l := fun directory => free ((dirs l).mpr directory)
  have destination := ((locate_eq_ok_iff ends named t l).mp located).2.2.2
  have apart : l ≠ temporary := by
    have name : p.name = last := by rw [Path.name, ends]; rfl
    rw [destination, Path.destination_eq ends named, beside, name]
    intro same
    exact temporaryName_ne last s (List.singleton_inj.mp (List.append_cancel_left same)).symm
  obtain rfl : e = .file content mode := by
    rw [staged, if_pos rfl] at found
    exact (Option.some.inj found).symm
  have holds : Holds t l content mode ((v.erase temporary).insert l (.file content mode)) := by
    intro k
    rw [find?_insert, find?_erase, staged]
    by_cases gone : k = temporary
    · simp [gone, absent]
    · simp [gone]
  have dirs := holds.hasDirectory_iff free
  exact ⟨l, destination, located, (locate_iff_of_directories dirs p l).mpr located, free, apart, rfl,
    holds⟩

theorem settle_eq_ok_iff {v : FileTree} :
    v.settle temporary p content = .ok u ↔ ∃ mode, v.modeFor p = .ok mode ∧
      (v.insert temporary (.file content mode)).rename temporary p = .ok u := by
  rw [settle]
  cases v.modeFor p <;> simp [bind, Except.bind]

/-- The mode is that of the file that was there before, since the temporary file is another one. -/
theorem settle_eq_ok (absent : t.find? temporary = none)
    (beside : temporary = Location.along [] p.parent.parts ++ [temporaryName p.name s])
    (settled : (t.insert temporary (.file content 0o600)).settle temporary p content = .ok u) :
    ∃ l, l = p.destination ∧ u.locate p = .ok l ∧ ¬t.HasDirectory l ∧ u.umask = t.umask ∧
      Holds t l content (t.modeAt l) u := by
  obtain ⟨mode, moded, moved⟩ := settle_eq_ok_iff.mp settled
  have staged := holds_insert t temporary content 0o600
  obtain ⟨l, destination, located, located_u, free, apart, umask, holds⟩ :=
    rename_temporary absent beside staged.replace moved
  have dirs := staged.hasDirectory_iff (not_hasDirectory_of_absent absent)
  have modes := modeFor_of_locate ((locate_iff_of_directories dirs p l).mpr located)
  rw [moded, modeAt, staged, if_neg apart] at modes
  obtain rfl : mode = t.modeAt l := Except.ok.inj modes
  exact ⟨l, destination, located_u, free, umask, holds⟩

end Settling

variable {t u : FileTree} {p : Path} {content : List UInt8}

theorem Extends.find?_eq {made : List Location} (extended : Extends t u made) {l : Location}
    (free : ¬u.HasDirectory l) : u.find? l = t.find? l := by
  cases found : t.find? l with
  | some e => exact extended.kept l e found
  | none =>
    rcases extended.new l found with still | ⟨_, directory⟩
    · exact still
    · exact absurd ⟨_, directory⟩ free

theorem replaced_of_holds {made : FileTree} {l : Location} (extended : Extends t made p.directories)
    (walkable : made.Walkable [] p.parent.parts) (destination : l = p.destination)
    (located : u.locate p = .ok l) (free : ¬made.HasDirectory l) (umask : u.umask = made.umask)
    (holds : Holds made l content (made.modeAt l) u) : Replaced t p content l u := by
  have mode : made.modeAt l = t.modeAt l := by
    rw [modeAt, modeAt, extended.find?_eq free, newFileMode, newFileMode, permitted, permitted,
      extended.umask]
  refine
    { destination
      located
      replaceable := fun directory => free (extended.hasDirectory directory)
      held := by rw [holds, if_pos rfl, mode]
      kept := fun k e other found => by rw [holds, if_neg other, extended.kept k e found]
      new := fun k other absent => ?_
      umask := umask.trans extended.umask }
  rw [holds, if_neg other]
  rcases extended.new k absent with still | ⟨member, found⟩
  · rw [still, if_neg]
    intro member
    exact not_hasDirectory_of_absent still (walkable.passed k member)
  · rw [found, if_pos member]

theorem replace_cases (t : FileTree) (stamps : List Stamp) (p : Path) (content : List UInt8) :
    (∃ u l, t.replace stamps p content = (u, .ok l) ∧ Replaced t p content l u) ∨
      ∃ u e, t.replace stamps p content = (u, .error e) ∧ Extends t u p.directories := by
  have extended := t.ensureDirectory_extends p.parent
  rw [replace]
  split
  · next made e ensured =>
    rw [ensured] at extended
    exact Or.inr ⟨made, e.cause, rfl, extended⟩
  · next made dir ensured =>
    rw [ensured] at extended
    obtain ⟨walkable, rfl⟩ := ensureDirectory_eq_ok ensured
    split
    · next e _ => exact Or.inr ⟨made, e, rfl, extended⟩
    · next staged temporary created =>
      obtain ⟨absent, ⟨s, beside⟩, rfl⟩ := createTemporary_eq_ok created
      split
      · next e _ =>
        refine Or.inr ⟨_, e, rfl, extended.trans (.of_same rfl fun k => ?_)⟩
        rw [find?_erase, find?_insert]
        split
        · next same => rw [same, absent]
        · rfl
      · next done settled =>
        obtain ⟨l, destination, located, free, umask, holds⟩ := settle_eq_ok absent beside settled
        rw [located]
        exact Or.inl ⟨done, l, rfl,
          replaced_of_holds extended walkable destination located free umask holds⟩

theorem writeGrammar_cases (t : FileTree) (stamps : List Stamp) (p : Path) (text : Text) :
    (∃ u l, t.writeGrammar stamps p text = (u, .ok l) ∧ Replaced t p text.utf8 l u) ∨
      ∃ u e, t.replace stamps p text.utf8 = (u, .error e) ∧
        t.writeGrammar stamps p text = (u, .error ⟨p, e⟩) ∧ Extends t u p.directories := by
  rcases t.replace_cases stamps p text.utf8 with ⟨u, l, done, replaced⟩ | ⟨u, e, failed, extended⟩
  · exact Or.inl ⟨u, l, by rw [writeGrammar, done]; rfl, replaced⟩
  · exact Or.inr ⟨u, e, failed, by rw [writeGrammar, failed]; rfl, extended⟩

end LiteralGrammar.FileTree
