import LiteralGrammar.Proofs.FileTree.Replace

/-!
Runs of operations on files. Whatever a run does, and in whichever spelling its paths are given, a
file that it made holds the text last written to it, and has the mode last set since it was made.
-/
namespace LiteralGrammar.FileTree

inductive Operation where
  | write (stamps : List Stamp) (p : Path) (text : Text)
  | makeDirectory (p : Path)
  | setMode (p : Path) (mode : Nat)
deriving DecidableEq, Repr

inductive Change where
  | written (l : Location) (text : Text)
  | modeSet (l : Location) (mode : Nat)
deriving DecidableEq, Repr

def apply (t : FileTree) : Operation → FileTree × List Change
  | .write stamps p text =>
    match t.writeGrammar stamps p text with
    | (u, .ok l) => (u, [.written l text])
    | (u, .error _) => (u, [])
  | .makeDirectory p => ((t.ensureDirectory p).1, [])
  | .setMode p mode =>
    match t.locate p, t.setMode p mode with
    | .ok l, .ok u => (u, [.modeSet l mode])
    | _, _ => (t, [])

def run (t : FileTree) : List Operation → FileTree × List Change
  | [] => (t, [])
  | operation :: rest =>
    let (u, first) := t.apply operation
    let (v, later) := u.run rest
    (v, first ++ later)

namespace Change

def textAt (l : Location) : Change → Option Text
  | written k text => if k = l then some text else none
  | modeSet _ _ => none

def modeAt (l : Location) : Change → Option Nat
  | written _ _ => none
  | modeSet k mode => if k = l then some mode else none

def last {α : Type} (told : Change → Option α) (changes : List Change) : Option α :=
  (changes.filterMap told).getLast?

def sinceFirst (l : Location) (changes : List Change) : List Change :=
  changes.dropWhile fun c => (c.textAt l).isNone

def update (l : Location) (newMode : Nat) (file : Option (List UInt8 × Nat)) :
    Change → Option (List UInt8 × Nat)
  | written k text => if k = l then some (text.utf8, (file.map Prod.snd).getD newMode) else file
  | modeSet k mode => if k = l then file.map fun f => (f.1, mode) else file

end Change

def file? (t : FileTree) (l : Location) : Option (List UInt8 × Nat) :=
  match t.find? l with
  | some (.file content mode) => some (content, mode)
  | _ => none

theorem get_of_file? {t : FileTree} {p : Path} {l : Location} {file : List UInt8 × Nat}
    (located : t.locate p = .ok l) (held : t.file? l = some file) :
    t.get p = .ok (.file file.1 file.2) := by
  rw [file?] at held
  split at held
  · next content mode found =>
    obtain rfl := Option.some.inj held
    exact get_of_locate located found
  · cases held

theorem Extends.file?_eq {t u : FileTree} {made : List Location} (extended : Extends t u made)
    (l : Location) : u.file? l = t.file? l := by
  cases found : t.find? l with
  | some e => rw [file?, file?, found, extended.kept l e found]
  | none =>
    rcases extended.new l found with still | ⟨_, directory⟩
    · rw [file?, file?, found, still]
    · rw [file?, file?, found, directory]

theorem Replaced.file?_eq {t u : FileTree} {p : Path} {text : Text} {l : Location}
    (replaced : Replaced t p text.utf8 l u) (k : Location) :
    u.file? k = Change.update k t.newFileMode (t.file? k) (.written l text) := by
  by_cases same : l = k
  · subst same
    have mode : t.modeAt l = ((t.file? l).map Prod.snd).getD t.newFileMode := by
      have replaceable := replaced.replaceable
      rw [modeAt, file?]
      rw [HasDirectory] at replaceable
      cases found : t.find? l with
      | none => rfl
      | some e =>
        cases e with
        | file content mode => rfl
        | directory mode => exact absurd ⟨mode, found⟩ replaceable
    rw [file?, replaced.held, Change.update, if_pos rfl, mode]
  · rw [Change.update, if_neg same]
    cases found : t.find? k with
    | some e => rw [file?, file?, found, replaced.kept k e (Ne.symm same) found]
    | none =>
      rw [file?, file?, found, replaced.new k (Ne.symm same) found]
      split <;> simp_all

theorem setMode_eq_ok {t u : FileTree} {p : Path} {l : Location} {mode : Nat}
    (located : t.locate p = .ok l) (done : t.setMode p mode = .ok u) :
    ∃ e, t.find? l = some e ∧ u = t.insert l (e.withMode mode) := by
  cases found : t.find? l with
  | none => simp [setMode, located, found, bind, Except.bind] at done
  | some e =>
    have set : t.setMode p mode = .ok (t.insert l (e.withMode mode)) := by
      simp [setMode, located, found, bind, Except.bind]
    rw [set] at done
    exact ⟨e, rfl, (Except.ok.inj done).symm⟩

theorem file?_setMode {t : FileTree} {l : Location} {e : FileEntry} (found : t.find? l = some e)
    (mode : Nat) (k : Location) :
    (t.insert l (e.withMode mode)).file? k =
      Change.update k t.newFileMode (t.file? k) (.modeSet l mode) := by
  rw [file?, find?_insert, Change.update]
  by_cases same : k = l
  · subst same
    rw [if_pos rfl, if_pos rfl, file?, found]
    cases e <;> rfl
  · rw [if_neg same, if_neg (Ne.symm same), file?]

theorem apply_step (t : FileTree) (operation : Operation) :
    (t.apply operation).1.umask = t.umask ∧
      ∀ l, (t.apply operation).1.file? l =
        (t.apply operation).2.foldl (Change.update l t.newFileMode) (t.file? l) := by
  cases operation with
  | write stamps p text =>
    rcases t.writeGrammar_cases stamps p text with
      ⟨u, l, done, replaced⟩ | ⟨u, e, -, failed, extended⟩
    · rw [apply, done]
      exact ⟨replaced.umask, replaced.file?_eq⟩
    · rw [apply, failed]
      exact ⟨extended.umask, extended.file?_eq⟩
  | makeDirectory p =>
    have extended := t.ensureDirectory_extends p
    exact ⟨extended.umask, extended.file?_eq⟩
  | setMode p mode =>
    rw [apply]
    split
    · next l u located done =>
      obtain ⟨e, found, rfl⟩ := setMode_eq_ok located done
      exact ⟨rfl, file?_setMode found mode⟩
    · exact ⟨rfl, fun _ => rfl⟩

theorem run_file? (t : FileTree) (operations : List Operation) (l : Location) :
    (t.run operations).1.file? l =
      (t.run operations).2.foldl (Change.update l t.newFileMode) (t.file? l) := by
  induction operations generalizing t with
  | nil => rfl
  | cons operation rest ih =>
    obtain ⟨umask, step⟩ := t.apply_step operation
    have newMode : (t.apply operation).1.newFileMode = t.newFileMode := by
      rw [newFileMode, newFileMode, permitted, permitted, umask]
    simp only [run, List.foldl_append]
    rw [← step l, ← newMode]
    exact ih (t.apply operation).1

namespace Change

theorem last_cons_some {α : Type} {told : Change → Option α} {c : Change} {a : α}
    (found : told c = some a) (rest : List Change) :
    last told (c :: rest) = some ((last told rest).getD a) := by
  rw [last, List.filterMap_cons_some found, List.getLast?_cons]
  rfl

theorem last_cons_none {α : Type} {told : Change → Option α} {c : Change} (found : told c = none)
    (rest : List Change) : last told (c :: rest) = last told rest := by
  rw [last, List.filterMap_cons_none found]
  rfl

theorem textAt_written (l : Location) (text : Text) : (written l text).textAt l = some text :=
  if_pos rfl

theorem modeAt_modeSet (l : Location) (mode : Nat) : (modeSet l mode).modeAt l = some mode :=
  if_pos rfl

theorem update_cases (l : Location) (newMode : Nat) (c : Change) :
    (∃ text, c = .written l text) ∨ (∃ mode, c = .modeSet l mode) ∨
      (c.textAt l = none ∧ c.modeAt l = none ∧ ∀ file, update l newMode file c = file) := by
  cases c with
  | written k text =>
    by_cases same : k = l
    · exact .inl ⟨text, by rw [same]⟩
    · exact .inr (.inr ⟨if_neg same, rfl, fun file => if_neg same⟩)
  | modeSet k mode =>
    by_cases same : k = l
    · exact .inr (.inl ⟨mode, by rw [same]⟩)
    · exact .inr (.inr ⟨rfl, if_neg same, fun file => if_neg same⟩)

theorem update_written (l : Location) (newMode : Nat) (file : Option (List UInt8 × Nat))
    (text : Text) :
    update l newMode file (.written l text) =
      some (text.utf8, (file.map Prod.snd).getD newMode) :=
  if_pos rfl

theorem update_modeSet (l : Location) (newMode : Nat) (file : Option (List UInt8 × Nat))
    (mode : Nat) :
    update l newMode file (.modeSet l mode) = file.map fun f => (f.1, mode) :=
  if_pos rfl

theorem sinceFirst_cons_of_silent {l : Location} {c : Change} (silent : c.textAt l = none)
    (rest : List Change) : sinceFirst l (c :: rest) = sinceFirst l rest :=
  List.dropWhile_cons_of_pos (by rw [silent]; rfl)

theorem foldl_update_some (l : Location) (newMode : Nat) (content : List UInt8) (mode : Nat)
    (changes : List Change) :
    changes.foldl (update l newMode) (some (content, mode)) =
      some (((last (textAt l) changes).map Text.utf8).getD content,
        (last (modeAt l) changes).getD mode) := by
  induction changes generalizing content mode with
  | nil => rfl
  | cons c rest ih =>
    rw [List.foldl_cons]
    rcases update_cases l newMode c with ⟨text, rfl⟩ | ⟨mode', rfl⟩ | ⟨unwritten, unset, kept⟩
    · have unset : modeAt l (.written l text) = none := rfl
      rw [update_written, last_cons_some (textAt_written l text), last_cons_none unset]
      exact (ih text.utf8 mode).trans (by cases last (textAt l) rest <;> rfl)
    · have unwritten : textAt l (.modeSet l mode') = none := rfl
      rw [update_modeSet, last_cons_some (modeAt_modeSet l mode'), last_cons_none unwritten]
      exact ih content mode'
    · rw [kept, last_cons_none unwritten, last_cons_none unset, ih]

theorem foldl_update_none (l : Location) (newMode : Nat) (changes : List Change) :
    changes.foldl (update l newMode) none =
      (last (textAt l) changes).map fun text =>
        (text.utf8, (last (modeAt l) (sinceFirst l changes)).getD newMode) := by
  induction changes with
  | nil => rfl
  | cons c rest ih =>
    rw [List.foldl_cons]
    rcases update_cases l newMode c with ⟨text, rfl⟩ | ⟨mode, rfl⟩ | ⟨unwritten, -, kept⟩
    · have since : sinceFirst l (.written l text :: rest) = .written l text :: rest := by
        simp [sinceFirst, textAt]
      have unset : modeAt l (.written l text) = none := rfl
      rw [update_written, last_cons_some (textAt_written l text), since, last_cons_none unset]
      exact (foldl_update_some l newMode text.utf8 _ rest).trans
        (by cases last (textAt l) rest <;> rfl)
    · have unwritten : textAt l (.modeSet l mode) = none := rfl
      rw [update_modeSet, last_cons_none unwritten, sinceFirst_cons_of_silent unwritten]
      exact ih
    · rw [kept, last_cons_none unwritten, sinceFirst_cons_of_silent unwritten, ih]

end Change

end LiteralGrammar.FileTree
