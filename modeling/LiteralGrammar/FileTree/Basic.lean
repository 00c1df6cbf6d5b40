import LiteralGrammar.FileTree.Path

/-!
Trees of files and directories below a working directory, without links. A location is a list of
names, outermost first; a path becomes a location by walking it.
-/
namespace LiteralGrammar

inductive FileEntry where
  | file (content : List UInt8) (mode : Nat)
  | directory (mode : Nat)
deriving DecidableEq, Repr

def FileEntry.isDirectory : FileEntry → Bool
  | directory _ => true
  | file .. => false

def FileEntry.mode : FileEntry → Nat
  | directory m | file _ m => m

def FileEntry.withMode (mode : Nat) : FileEntry → FileEntry
  | directory _ => directory mode
  | file content _ => file content mode

abbrev Location := List Text

structure FileTree where
  entries : List (Location × FileEntry)
  /-- The permission bits that no new file or directory gets. -/
  umask : Nat := 0o022
deriving DecidableEq, Repr

inductive FileError where
  | missing
  | present
  | notDirectory
  | isDirectory
  | nameTooLong
  | busy
  | noFreeName
  | nul
deriving DecidableEq, Repr

def FileError.message : FileError → Text
  | missing => "No such file or directory"
  | present => "File exists"
  | notDirectory => "Not a directory"
  | isDirectory => "Is a directory"
  | nameTooLong => "File name too long"
  | busy => "Device or resource busy"
  | noFreeName => "No usable temporary file name found"
  | nul => "embedded null byte"

def Path.refused? (p : Path) : Option FileError :=
  if p.hasNul then some .nul else if p.isTooLong then some .nameTooLong else none

namespace FileTree

def permitted (t : FileTree) (bits : Nat) : Nat := bits ^^^ (bits &&& t.umask)

def newFileMode (t : FileTree) : Nat := t.permitted 0o666

def newDirectoryMode (t : FileTree) : Nat := t.permitted 0o777

def empty : FileTree where
  entries := [([], .directory 0o700)]

def find? (t : FileTree) (l : Location) : Option FileEntry :=
  (t.entries.find? (·.1 = l)).map Prod.snd

def insert (t : FileTree) (l : Location) (e : FileEntry) : FileTree :=
  { t with entries := go t.entries }
where
  go : List (Location × FileEntry) → List (Location × FileEntry)
    | [] => [(l, e)]
    | entry :: rest => if entry.1 = l then (l, e) :: rest else entry :: go rest

def erase (t : FileTree) (l : Location) : FileTree :=
  { t with entries := t.entries.filter (·.1 ≠ l) }

theorem find?_insert (t : FileTree) (l k : Location) (e : FileEntry) :
    (t.insert l e).find? k = if k = l then some e else t.find? k := by
  obtain ⟨entries, umask⟩ := t
  simp only [insert, find?]
  induction entries with
  | nil => by_cases h : k = l <;> simp [insert.go, h, eq_comm]
  | cons entry rest ih =>
    by_cases hl : entry.1 = l
    · subst hl
      by_cases h : k = entry.1 <;> simp [insert.go, h, eq_comm]
    · by_cases h : entry.1 = k
      · subst h
        simp [insert.go, hl]
      · simpa [insert.go, hl, h] using ih

theorem find?_erase (t : FileTree) (l k : Location) :
    (t.erase l).find? k = if k = l then none else t.find? k := by
  obtain ⟨entries, umask⟩ := t
  simp only [erase, find?]
  induction entries with
  | nil => simp
  | cons entry rest ih =>
    by_cases hl : entry.1 = l
    · subst hl
      by_cases h : k = entry.1
      · simp [h]
      · simpa [h, Ne.symm h] using ih
    · by_cases h : entry.1 = k
      · subst h
        simp [hl]
      · simpa [hl, h] using ih

def isTooLong (name : Text) : Bool := Path.longestName < name.byteSize

/-- The location of a directory, from another one. Every component must be there and be a directory;
the working directory is its own parent. -/
def walk (t : FileTree) (start : Location) : List Text → Except FileError Location
  | [] => .ok start
  | name :: rest =>
    if name = ".." then t.walk start.dropLast rest
    else if isTooLong name then .error .nameTooLong
    else match t.find? (start ++ [name]) with
      | none => .error .missing
      | some e =>
        if e.isDirectory then t.walk (start ++ [name]) rest else .error .notDirectory

def locate (t : FileTree) (p : Path) : Except FileError Location :=
  match p.refused?, p.parts.getLast? with
  | some e, _ => .error e
  | none, none => .ok []
  | none, some last =>
    if last = ".." then t.walk [] p.parts
    else do
      let dir ← t.walk [] p.parent.parts
      if isTooLong last then .error .nameTooLong else .ok (dir ++ [last])

def get (t : FileTree) (p : Path) : Except FileError FileEntry := do
  match t.find? (← t.locate p) with
  | some e => .ok e
  | none => .error .missing

def setMode (t : FileTree) (p : Path) (mode : Nat) : Except FileError FileTree := do
  let l ← t.locate p
  match t.find? l with
  | some e => .ok (t.insert l (e.withMode mode))
  | none => .error .missing

/-- Everything below the working directory with its path, sorted by path, and the content of each
file. -/
def listing (t : FileTree) : List (Text × Option (List UInt8)) :=
  let rows := (t.entries.filter (·.1 ≠ [])).map fun (l, e) =>
    (Text.join "/" l, match e with | .file content _ => some content | .directory _ => none)
  rows.mergeSort fun a b => Text.notAfter a.1 b.1

end FileTree

end LiteralGrammar
