import LiteralGrammar.Proofs.FileTree.Replace

/-!
Writes that fail. Nothing is lost, and unless the path holds a character that no path can, the error
names it.
-/
namespace LiteralGrammar

namespace Path

theorem hasNul_ofText {given : Text} (clean : '\x00' ∉ given) : (ofText given).hasNul = false := by
  refine List.any_eq_false.mpr fun part member held => ?_
  have inside := (List.mem_filter.mp member).1
  exact clean (Text.mem_splitOnP inside '\x00' (List.contains_iff_mem.mp held)).1

variable {p : Path}

theorem hasNul_parent (clean : p.hasNul = false) : p.parent.hasNul = false :=
  List.any_eq_false.mpr fun part member =>
    List.any_eq_false.mp clean part (List.dropLast_subset _ member)

theorem contains_name (clean : p.hasNul = false) : p.name.contains '\x00' = false := by
  rw [name]
  cases ends : p.parts.getLast? with
  | none => rfl
  | some last =>
    simpa using List.any_eq_false.mp clean last (List.mem_of_getLast? ends)

theorem refused?_ne_nul (clean : p.hasNul = false) : p.refused? ≠ some .nul := by
  rw [refused?, clean]
  cases p.isTooLong <;> simp

end Path

theorem WriteError.report_of_ne_nul {e : WriteError} (other : e.cause ≠ .nul) :
    e.report = .diagnosed (.writeFailed e.path.text e.cause.message) := by
  rw [report]
  split
  · next nul => exact absurd nul other
  · rfl

namespace FileTree

theorem bind_ne_error {ε α β : Type} {first : Except ε α} {next : α → Except ε β} {e : ε}
    (here : first ≠ .error e) (later : ∀ a, next a ≠ .error e) : first >>= next ≠ .error e := by
  cases first with
  | error e' => exact fun same => here (congrArg Except.error (Except.error.inj same))
  | ok a => exact later a

section

variable (t : FileTree) {p : Path}

theorem walk_ne_nul (here : Location) (parts : List Text) : t.walk here parts ≠ .error .nul := by
  induction parts generalizing here with
  | nil => simp [walk]
  | cons name rest ih =>
    rw [walk]
    split
    · exact ih _
    · split
      · simp
      · split
        · simp
        · split
          · exact ih _
          · simp

theorem locate_ne_nul (clean : p.hasNul = false) : t.locate p ≠ .error .nul := by
  rw [locate]
  split
  · next e _ refused =>
    intro same
    exact Path.refused?_ne_nul clean (Except.error.inj same ▸ refused)
  · simp
  · split
    · exact t.walk_ne_nul _ _
    · exact bind_ne_error (t.walk_ne_nul _ _) fun dir => by split <;> simp

theorem modeFor_ne_nul (clean : p.hasNul = false) : t.modeFor p ≠ .error .nul := by
  have get : t.get p ≠ .error .nul :=
    bind_ne_error (t.locate_ne_nul clean) fun l => by split <;> simp
  rw [modeFor]
  split
  · simp
  · simp
  · next e _ failed =>
    intro same
    exact get (Except.error.inj same ▸ failed)

theorem rename_ne_nul (source : Location) (clean : p.hasNul = false) :
    t.rename source p ≠ .error .nul := by
  rw [rename]
  split
  · simp
  · split
    · simp
    · exact bind_ne_error (t.locate_ne_nul clean) fun l => by split <;> simp

theorem descend_ne_nul (making : Bool) (passed : List Text) (here : Location) (parts : List Text)
    {e : DirectoryError} (failed : (t.descend making passed here parts).2 = .error e) :
    e.cause ≠ .nul := by
  induction parts generalizing t making passed here with
  | nil => cases failed
  | cons name rest ih =>
    rw [descend] at failed
    split at failed
    · exact ih _ _ _ _ failed
    · split at failed
      · cases failed
        simp [overlong]
      · split at failed
        · exact ih _ _ _ _ failed
        · cases failed
          rw [blocked]
          split
          · simp
          · split <;> simp
        · exact ih _ _ _ _ failed

theorem ensureDirectory_ne_nul (clean : p.hasNul = false) {e : DirectoryError}
    (failed : (t.ensureDirectory p).2 = .error e) : e.cause ≠ .nul := by
  rw [ensureDirectory] at failed
  split at failed
  · next e' refused =>
    cases failed
    exact fun nul => Path.refused?_ne_nul clean (refused.trans (congrArg some nul))
  · exact t.descend_ne_nul _ _ _ _ failed

theorem createTemporary_ne_nul (dir : Location) {name : Text} (content : List UInt8)
    (clean : name.contains '\x00' = false) (stamps : List Stamp) :
    t.createTemporary dir name content stamps ≠ .error .nul := by
  induction stamps with
  | nil => simp [createTemporary]
  | cons stamp later ih =>
    rw [createTemporary, clean, if_neg Bool.false_ne_true]
    split
    · simp
    · split
      · simp
      · exact ih

theorem settle_ne_nul (temporary : Location) (content : List UInt8) (clean : p.hasNul = false) :
    t.settle temporary p content ≠ .error .nul :=
  bind_ne_error (t.modeFor_ne_nul clean) fun _ => rename_ne_nul _ _ clean

theorem replace_ne_nul (stamps : List Stamp) (content : List UInt8) (clean : p.hasNul = false) :
    (t.replace stamps p content).2 ≠ .error .nul := by
  rw [replace]
  split
  · next made e ensured =>
    intro nul
    exact t.ensureDirectory_ne_nul (Path.hasNul_parent clean) (congrArg Prod.snd ensured)
      (Except.error.inj nul)
  · next made dir ensured =>
    split
    · next e failed =>
      intro nul
      exact made.createTemporary_ne_nul dir content (Path.contains_name clean) stamps
        (failed.trans (congrArg Except.error (Except.error.inj nul)))
    · next staged temporary created =>
      split
      · next e failed =>
        intro nul
        exact staged.settle_ne_nul temporary content clean
          (failed.trans (congrArg Except.error (Except.error.inj nul)))
      · exact locate_ne_nul _ clean

end

/-- A write that fails says which path could not be written, in a spelling that names it, and leaves
every file as it was; all it adds are missing directories above the destination. -/
theorem failed_write_damages_nothing (t : FileTree) (stamps : List Stamp) (given text : Text)
    (e : WriteError) (failed : (t.writeGrammar stamps (.ofText given) text).2 = .error e) :
    e.path = .ofText given ∧ Path.ofText e.path.text = .ofText given ∧
      ('\x00' ∉ given → ∃ d, e.report = .diagnosed d ∧ d.code = .writeFailed ∧
        d.path = some (Path.ofText given).text) ∧
      Extends t (t.writeGrammar stamps (.ofText given) text).1 (Path.ofText given).directories := by
  rcases t.writeGrammar_cases stamps (.ofText given) text with
    ⟨u, l, done, _⟩ | ⟨u, cause, stopped, ends, extended⟩
  · rw [done] at failed
    cases failed
  · rw [ends] at failed ⊢
    obtain rfl := Except.error.inj failed
    refine ⟨rfl, Path.ofText_text given, fun clean => ?_, extended⟩
    have other := t.replace_ne_nul stamps text.utf8 (Path.hasNul_ofText clean)
    rw [stopped] at other
    have other : cause ≠ .nul := fun same => other (congrArg Except.error same)
    exact ⟨_, WriteError.report_of_ne_nul other, rfl, rfl⟩

theorem failed_write_damages_nothing_directory :
    let t := FileTree.empty.insert ["d".toList] (.directory 0o750)
    let stamps : List Stamp := [⟨"k3_z09ab", rfl, rfl⟩]
    let given : Text := "x//../d/"
    let e : WriteError := ⟨.ofText given, .isDirectory⟩
    (t.writeGrammar stamps (.ofText given) "text").2 = .error e ∧ '\x00' ∉ given ∧
      e.path = .ofText given ∧ Path.ofText e.path.text = .ofText given ∧
      (∃ d, e.report = .diagnosed d ∧ d.code = .writeFailed ∧
        d.path = some (Path.ofText given).text) ∧
      Extends t (t.writeGrammar stamps (.ofText given) "text").1
        (Path.ofText given).directories := by
  intro t stamps given e
  have failed : (t.writeGrammar stamps (.ofText given) "text").2 = .error e := by decide +kernel
  have clean : '\x00' ∉ given := by decide
  obtain ⟨path, spelled, diagnosed, extended⟩ :=
    failed_write_damages_nothing t stamps given "text" e failed
  exact ⟨failed, clean, path, spelled, diagnosed clean, extended⟩

end FileTree

end LiteralGrammar
