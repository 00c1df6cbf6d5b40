import LiteralGrammar.Diagnostic.Report
import LiteralGrammar.FileTree.Directory

/-!
Replacing a file as a whole. The text goes to a temporary file beside the destination, which then
takes the destination's name and mode. Whatever fails, the temporary file goes away; directories
made on the way stay.
-/
namespace LiteralGrammar

namespace Stamp

def size : Nat := 8

def drawable : Text := "abcdefghijklmnopqrstuvwxyz0123456789_"

end Stamp

structure Stamp where
  text : Text
  length_eq : text.length = Stamp.size
  drawn : text.all Stamp.drawable.contains = true
deriving DecidableEq, Repr

namespace FileTree

def temporaryName (name : Text) (stamp : Stamp) : Text := "." ++ name ++ "." ++ stamp.text ++ ".tmp"

/-- The path is that of the location, however the directory was reached. -/
def isOverlong (l : Location) : Bool := (Path.mk [] l).isTooLong

def createTemporary (t : FileTree) (dir : Location) (name : Text) (content : List UInt8) :
    List Stamp → Except FileError (FileTree × Location)
  | [] => .error .noFreeName
  | stamp :: later =>
    let l := dir ++ [temporaryName name stamp]
    if name.contains '\x00' then .error .nul
    else if isTooLong (temporaryName name stamp) ∨ isOverlong l then .error .nameTooLong
    else match t.find? l with
      | none => .ok (t.insert l (.file content 0o600), l)
      | some _ => t.createTemporary dir name content later

def modeFor (t : FileTree) (p : Path) : Except FileError Nat :=
  match t.get p with
  | .ok e => .ok e.mode
  | .error .missing => .ok t.newFileMode
  | .error e => .error e

def rename (t : FileTree) (source : Location) (p : Path) : Except FileError FileTree :=
  match p.parts.getLast?, t.find? source with
  | none, _ => .error .busy
  | some last, moved =>
    if last = ".." then .error .busy
    else do
      let l ← t.locate p
      match t.find? l, moved with
      | some (.directory _), _ => .error .isDirectory
      | _, some e => .ok ((t.erase source).insert l e)
      | _, none => .error .missing

def settle (t : FileTree) (temporary : Location) (p : Path) (content : List UInt8) :
    Except FileError FileTree := do
  let mode ← t.modeFor p
  (t.insert temporary (.file content mode)).rename temporary p

/-- The tree afterwards, and the location written to. The stamps are tried in turn. -/
def replace (t : FileTree) (stamps : List Stamp) (p : Path) (content : List UInt8) :
    FileTree × Except FileError Location :=
  match t.ensureDirectory p.parent with
  | (made, .error e) => (made, .error e.cause)
  | (made, .ok dir) =>
    match made.createTemporary dir p.name content stamps with
    | .error e => (made, .error e)
    | .ok (staged, temporary) =>
      match staged.settle temporary p content with
      | .error e => (staged.erase temporary, .error e)
      | .ok done => (done, done.locate p)

end FileTree

structure WriteError where
  path : Path
  cause : FileError
deriving DecidableEq, Repr

namespace WriteError

/-- A path that the system does not take is a bad value, and no more is said of it. -/
def report (e : WriteError) : Report :=
  match e.cause with
  | .nul => .note FileError.nul.message
  | cause => .diagnosed (.writeFailed e.path.text cause.message)

end WriteError

def FileTree.writeGrammar (t : FileTree) (stamps : List Stamp) (p : Path) (content : Text) :
    FileTree × Except WriteError Location :=
  let (written, outcome) := t.replace stamps p content.utf8
  (written, outcome.mapError (⟨p, ·⟩))

end LiteralGrammar
