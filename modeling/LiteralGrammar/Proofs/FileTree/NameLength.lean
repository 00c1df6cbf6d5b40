import LiteralGrammar.Proofs.FileTree.Replace
import Mathlib.Data.List.Dedup

/-!
How long the name of a file may be. The temporary file has a longer name than the destination, so a
name that could be written is refused if the temporary one is too long. Every shorter name is
written, unless all names that are tried for the temporary file are taken.
-/
namespace LiteralGrammar

theorem Text.byteSize_append (s t : Text) : byteSize (s ++ t) = byteSize s + byteSize t := by
  rw [← length_utf8, ← length_utf8, ← length_utf8, ← List.length_append, utf8, List.flatMap_append]
  rfl

structure Path.IsFileName (name : Text) : Prop extends Path.IsComponent name where
  stays : name ≠ ".."
  noNul : '\x00' ∉ name
  short : name.byteSize ≤ Path.longestName

instance (name : Text) : Decidable (Path.IsFileName name) :=
  decidable_of_iff (name ≠ [] ∧ name ≠ "." ∧ '/' ∉ name ∧ name ≠ ".." ∧ '\x00' ∉ name ∧
      name.byteSize ≤ Path.longestName)
    ⟨fun ⟨nonempty, moves, whole, stays, noNul, short⟩ =>
        ⟨⟨nonempty, moves, whole⟩, stays, noNul, short⟩,
      fun legal => ⟨legal.nonempty, legal.moves, legal.whole, legal.stays, legal.noNul,
        legal.short⟩⟩

theorem Path.text_name (name : Text) : (Path.mk [] [name]).text = name := by
  simp [Path.text, Text.join]

namespace FileTree

def longestReplaced : Nat := 241

theorem utf8Size_of_drawable {c : Char} (h : Stamp.drawable.contains c = true) : c.utf8Size = 1 := by
  have each : Stamp.drawable.all (fun c => c.utf8Size == 1) = true := rfl
  exact beq_iff_eq.mp (List.all_eq_true.mp each c (List.contains_iff_mem.mp h))

theorem byteSize_of_drawn {t : Text} (drawn : t.all Stamp.drawable.contains = true) :
    t.byteSize = t.length := by
  induction t with
  | nil => rfl
  | cons c rest ih =>
    obtain ⟨first, later⟩ := Bool.and_eq_true_iff.mp drawn
    rw [Text.byteSize, utf8Size_of_drawable first, ih later, List.length_cons, Nat.add_comm]

theorem byteSize_temporaryName (name : Text) (stamp : Stamp) :
    (temporaryName name stamp).byteSize = name.byteSize + 14 := by
  have stamped : stamp.text.byteSize = 8 :=
    (byteSize_of_drawn stamp.drawn).trans stamp.length_eq
  have dot : Text.byteSize "." = 1 := by decide
  have ending : Text.byteSize ".tmp" = 4 := by decide
  simp only [temporaryName, Text.byteSize_append, stamped, dot, ending]
  omega

theorem isTooLong_temporaryName_iff (name : Text) (stamp : Stamp) :
    isTooLong (temporaryName name stamp) = true ↔ longestReplaced < name.byteSize := by
  rw [isTooLong, byteSize_temporaryName, decide_eq_true_iff, Path.longestName, longestReplaced]
  omega

/-- One of the names tried for a temporary file is free. -/
def HasFreeName (t : FileTree) (stamps : List Stamp) (dir : Location) (name : Text) : Prop :=
  ∃ s ∈ stamps, t.find? (dir ++ [temporaryName name s]) = none

theorem temporaryName_injective {name : Text} {s s' : Stamp}
    (same : temporaryName name s = temporaryName name s') : s = s' := by
  obtain ⟨text, _, _⟩ := s
  obtain ⟨text', _, _⟩ := s'
  have texts : text = text' := by simpa [temporaryName] using same
  simp [texts]

theorem hasFreeName_of_few {t : FileTree} {stamps : List Stamp}
    (few : t.entries.length < stamps.dedup.length) (dir : Location) (name : Text) :
    t.HasFreeName stamps dir name := by
  by_contra none
  let tried (s : Stamp) : Location := dir ++ [temporaryName name s]
  have taken : stamps.dedup.map tried ⊆ t.entries.map Prod.fst := by
    intro l member
    obtain ⟨s, drawn, rfl⟩ := List.mem_map.mp member
    by_contra absent
    refine none ⟨s, List.mem_dedup.mp drawn, ?_⟩
    rw [find?, Option.map_eq_none_iff, List.find?_eq_none]
    intro entry inside same
    exact absent (List.mem_map.mpr ⟨entry, inside, of_decide_eq_true same⟩)
  have distinct : (stamps.dedup.map tried).Nodup := by
    refine stamps.nodup_dedup.map fun s s' same => ?_
    exact temporaryName_injective (List.singleton_inj.mp (List.append_cancel_left same))
  have enough := distinct.length_le_of_subset taken
  rw [List.length_map, List.length_map] at enough
  omega

section Names

variable {name : Text}

theorem ensureDirectory_here (t : FileTree) (name : Text) :
    t.ensureDirectory (Path.mk [] [name]).parent = (t, .ok []) := rfl

theorem isOverlong_name (short : name.byteSize ≤ Path.longestName) : isOverlong [name] = false := by
  rw [isOverlong, Path.isTooLong, Path.text_name, decide_eq_false_iff_not, Path.longestText]
  rw [Path.longestName] at short
  omega

theorem contains_nul (legal : Path.IsFileName name) : name.contains '\x00' = false := by
  simpa using legal.noNul

theorem destination_name (stays : name ≠ "..") : (Path.mk [] [name]).destination = [name] := by
  rw [Path.destination, Location.along, if_neg stays]
  rfl

theorem locate_name (t : FileTree) (legal : Path.IsFileName name) :
    t.locate ⟨[], [name]⟩ = .ok [name] := by
  have short : isTooLong name = false := by
    rw [isTooLong, decide_eq_false_iff_not, Nat.not_lt]
    exact legal.short
  have taken : Path.refused? ⟨[], [name]⟩ = none := by
    have clean : (Path.mk [] [name]).hasNul = false := by
      rw [Path.hasNul, List.any_cons, List.any_nil, contains_nul legal, Bool.false_or]
    have fits : (Path.mk [] [name]).isTooLong = false := isOverlong_name legal.short
    simp only [Path.refused?, clean, fits, Bool.false_eq_true, if_false]
  exact (locate_eq_ok_iff rfl legal.stays t [name]).mpr
    ⟨taken, walkable_nil t [], short, (destination_name legal.stays).symm⟩

/-- Up to the limit the temporary name is a name, and its location is no longer than a path may
be; then only names that are taken stand in the way. -/
theorem createTemporary_here (t : FileTree) (legal : Path.IsFileName name)
    (short : name.byteSize ≤ longestReplaced) (content : List UInt8) (stamp : Stamp)
    (later : List Stamp) :
    t.createTemporary [] name content (stamp :: later) =
      match t.find? [temporaryName name stamp] with
      | none => .ok (t.insert [temporaryName name stamp] (.file content 0o600),
          [temporaryName name stamp])
      | some _ => t.createTemporary [] name content later := by
  have fits : isTooLong (temporaryName name stamp) = false := by
    rw [Bool.eq_false_iff, ne_eq, isTooLong_temporaryName_iff]
    omega
  have reachable : isOverlong [temporaryName name stamp] = false :=
    isOverlong_name (by simpa [isTooLong] using fits)
  cases found : t.find? [temporaryName name stamp] <;>
    simp only [createTemporary, contains_nul legal, List.nil_append, fits, reachable, found,
      Bool.false_eq_true, or_self, if_false]

theorem createTemporary_of_free {t : FileTree} {stamps : List Stamp} (legal : Path.IsFileName name)
    (short : name.byteSize ≤ longestReplaced) (free : t.HasFreeName stamps [] name)
    (content : List UInt8) :
    ∃ staged temporary, t.createTemporary [] name content stamps = .ok (staged, temporary) := by
  obtain ⟨s, drawn, absent⟩ := free
  induction stamps with
  | nil => cases drawn
  | cons stamp later ih =>
    rw [createTemporary_here t legal short]
    split
    · exact ⟨_, _, rfl⟩
    · next taken =>
      rcases List.mem_cons.mp drawn with rfl | behind
      · rw [List.nil_append] at absent
        rw [absent] at taken
        cases taken
      · exact ih behind

theorem createTemporary_of_taken {t : FileTree} {stamps : List Stamp} (legal : Path.IsFileName name)
    (short : name.byteSize ≤ longestReplaced) (taken : ¬t.HasFreeName stamps [] name)
    (content : List UInt8) : t.createTemporary [] name content stamps = .error .noFreeName := by
  induction stamps with
  | nil => rfl
  | cons stamp later ih =>
    rw [createTemporary_here t legal short]
    split
    · next absent => exact absurd ⟨stamp, .head _, absent⟩ taken
    · exact ih fun ⟨s, behind, absent⟩ => taken ⟨s, .tail _ behind, absent⟩

theorem createTemporary_of_long (t : FileTree) (legal : Path.IsFileName name)
    (long : longestReplaced < name.byteSize) {stamps : List Stamp} (some : stamps ≠ [])
    (content : List UInt8) : t.createTemporary [] name content stamps = .error .nameTooLong := by
  cases stamps with
  | nil => exact absurd rfl some
  | cons stamp later =>
    rw [createTemporary, contains_nul legal, if_neg Bool.false_ne_true]
    exact if_pos (Or.inl ((isTooLong_temporaryName_iff name stamp).mpr long))

end Names

theorem rename_of_locate {t : FileTree} {source l : Location} {p : Path} {last : Text}
    {e : FileEntry} (ends : p.parts.getLast? = some last) (named : last ≠ "..")
    (located : t.locate p = .ok l) (free : ¬t.HasDirectory l) (found : t.find? source = some e) :
    t.rename source p = .ok ((t.erase source).insert l e) := by
  simp only [rename, ends, found, if_neg named, located, bind, Except.bind]
  cases there : t.find? l with
  | none => rfl
  | some d =>
    cases d with
    | file => rfl
    | directory mode => exact absurd ⟨mode, there⟩ free

theorem settle_of_locate {t : FileTree} {temporary l : Location} {p : Path} {last : Text}
    (ends : p.parts.getLast? = some last) (named : last ≠ "..")
    (absent : t.find? temporary = none) (located : t.locate p = .ok l)
    (free : ¬t.HasDirectory l) (content : List UInt8) :
    ∃ u, (t.insert temporary (.file content 0o600)).settle temporary p content = .ok u := by
  have vacant := not_hasDirectory_of_absent absent
  have staged := holds_insert t temporary content 0o600
  have moded := modeFor_of_locate
    ((locate_iff_of_directories (staged.hasDirectory_iff vacant) p l).mpr located)
  have placed (mode : Nat) : Holds t temporary content mode
      ((t.insert temporary (.file content 0o600)).insert temporary (.file content mode)) :=
    staged.replace
  have moved (mode : Nat) := by
    have dirs := (placed mode).hasDirectory_iff vacant
    exact rename_of_locate ends named ((locate_iff_of_directories dirs p l).mpr located)
      (fun directory => free ((dirs l).mp directory)) ((placed mode temporary).trans (if_pos rfl))
  exact ⟨_, settle_eq_ok_iff.mpr ⟨_, moded, moved _⟩⟩

theorem writeGrammar_of_created {t staged : FileTree} {stamps : List Stamp} {p : Path}
    {l dir temporary : Location} {last text : Text}
    (ends : p.parts.getLast? = some last) (named : last ≠ "..")
    (there : t.ensureDirectory p.parent = (t, .ok dir)) (located : t.locate p = .ok l)
    (free : ¬t.HasDirectory l)
    (created : t.createTemporary dir p.name text.utf8 stamps = .ok (staged, temporary)) :
    ∃ u k, t.writeGrammar stamps p text = (u, .ok k) ∧ Replaced t p text.utf8 k u := by
  obtain ⟨absent, ⟨s, beside⟩, rfl⟩ := createTemporary_eq_ok created
  obtain ⟨u, settled⟩ := settle_of_locate ends named absent located free text.utf8
  rw [(ensureDirectory_eq_ok there).2] at beside
  obtain ⟨k, -, located_u, -⟩ := settle_eq_ok absent beside settled
  have written : t.writeGrammar stamps p text = (u, .ok k) := by
    simp only [writeGrammar, replace, there, created, settled, located_u]
    rfl
  rcases t.writeGrammar_cases stamps p text with done | ⟨_, _, -, failed, _⟩
  · exact done
  · rw [written] at failed
    cases failed

theorem writeGrammar_of_refused {t : FileTree} {stamps : List Stamp} {p : Path} {dir : Location}
    {text : Text} {e : FileError} (there : t.ensureDirectory p.parent = (t, .ok dir))
    (refused : t.createTemporary dir p.name text.utf8 stamps = .error e) :
    t.writeGrammar stamps p text = (t, .error ⟨p, e⟩) := by
  simp only [writeGrammar, replace, there, refused]
  rfl

/-- Every legal name that is no directory's is written, up to 241 bytes and while a temporary name is
free; the longer ones are refused as too long, whatever is drawn, and nothing is changed. -/
theorem names_written_up_to_length (t : FileTree) (stamps : List Stamp) {name : Text}
    (legal : Path.IsFileName name) (text : Text) (free : ¬t.HasDirectory [name]) :
    let p := Path.ofText name
    (name.byteSize ≤ longestReplaced → t.HasFreeName stamps [] name →
      ∃ u, t.writeGrammar stamps p text = (u, .ok [name]) ∧ Replaced t p text.utf8 [name] u) ∧
    (name.byteSize ≤ longestReplaced → ¬t.HasFreeName stamps [] name →
      t.writeGrammar stamps p text = (t, .error ⟨p, .noFreeName⟩)) ∧
    (longestReplaced < name.byteSize → stamps ≠ [] →
      t.writeGrammar stamps p text = (t, .error ⟨p, .nameTooLong⟩)) ∧
    (t.entries.length < stamps.dedup.length → t.HasFreeName stamps [] name) := by
  intro p
  have here : p = ⟨[], [name]⟩ := Path.ofText_of_component legal.toIsComponent
  have there := t.ensureDirectory_here name
  rw [here]
  refine ⟨fun short untaken => ?_, fun short taken => ?_, fun long some => ?_, fun few => ?_⟩
  · obtain ⟨staged, temporary, created⟩ := createTemporary_of_free legal short untaken text.utf8
    obtain ⟨u, k, written, replaced⟩ :=
      writeGrammar_of_created rfl legal.stays there (t.locate_name legal) free created
    obtain rfl : k = [name] := replaced.destination.trans (destination_name legal.stays)
    exact ⟨u, written, replaced⟩
  · exact writeGrammar_of_refused there (createTemporary_of_taken legal short taken _)
  · exact writeGrammar_of_refused there (t.createTemporary_of_long legal long some _)
  · exact hasFreeName_of_few few [] name

theorem names_written_up_to_length_longest :
    let name : Text := List.replicate 80 '日' ++ ['a']
    let first : Stamp := ⟨"k3_z09ab", rfl, rfl⟩
    let stamps : List Stamp := [first, ⟨"________", rfl, rfl⟩]
    let t := (FileTree.empty.insert [name] (.file [0x61] 0o640)).insert [temporaryName name first]
      (.file [] 0o600)
    Path.IsFileName name ∧ name.byteSize = 241 ∧ ¬t.HasDirectory [name] ∧
      t.HasFreeName stamps [] name ∧
      ∃ u, t.writeGrammar stamps (.ofText name) "text" = (u, .ok [name]) ∧
        Replaced t (.ofText name) (Text.utf8 "text") [name] u := by
  intro name first stamps t
  have size : name.byteSize = 241 := by decide +kernel
  have legal : Path.IsFileName name := by decide +kernel
  have held : t.find? [name] = some (.file [0x61] 0o640) := by decide +kernel
  have free : ¬t.HasDirectory [name] := by
    rintro ⟨mode, found⟩
    rw [held] at found
    cases found
  have untaken : t.HasFreeName stamps [] name :=
    ⟨⟨"________", rfl, rfl⟩, by decide, by decide +kernel⟩
  obtain ⟨written, -⟩ := names_written_up_to_length t stamps legal "text" free
  exact ⟨legal, size, free, untaken, written (Nat.le_of_eq size) untaken⟩

/-- One byte more than the limit, though the name itself would fit. -/
theorem long_name_refused :
    let name : Text := List.replicate 242 'a'
    Path.IsFileName name ∧ ¬FileTree.empty.HasDirectory [name] ∧
      ∀ stamps : List Stamp, stamps ≠ [] → (FileTree.empty.writeGrammar stamps (.ofText name) "x").2 =
        .error ⟨.ofText name, .nameTooLong⟩ := by
  intro name
  have absent : FileTree.empty.find? [name] = none := by decide +kernel
  have legal : Path.IsFileName name := by decide +kernel
  have long : longestReplaced < name.byteSize := by decide +kernel
  refine ⟨legal, not_hasDirectory_of_absent absent, fun stamps some => ?_⟩
  rw [Path.ofText_of_component legal.toIsComponent]
  exact congrArg Prod.snd (writeGrammar_of_refused (FileTree.empty.ensureDirectory_here name)
    (FileTree.empty.createTemporary_of_long legal long some _))

end FileTree

end LiteralGrammar
