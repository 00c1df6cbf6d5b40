import LiteralGrammar.FileTree.Basic

/-!
Making directories. What is there on the way down is walked through, and from the first component
that is missing on directories are made one by one; those made stay when a later one cannot be.
-/
namespace LiteralGrammar.FileTree

structure DirectoryError where
  parts : List Text
  cause : FileError
deriving DecidableEq, Repr

/-- Once directories are being made, the one that fails is the next one; before that it is the whole
path, and a file then blocks the way unless it is the last component. -/
def blocked (making : Bool) (passed : List Text) (name : Text) (rest : List Text) :
    DirectoryError :=
  if making then ⟨passed ++ [name], .present⟩
  else ⟨passed ++ name :: rest, if rest = [] then .present else .notDirectory⟩

def overlong (making : Bool) (passed : List Text) (name : Text) (rest : List Text) :
    DirectoryError :=
  ⟨passed ++ name :: if making then [] else rest, .nameTooLong⟩

def descend (t : FileTree) (making : Bool) (passed : List Text) (here : Location) :
    List Text → FileTree × Except DirectoryError Location
  | [] => (t, .ok here)
  | name :: rest =>
    if name = ".." then t.descend making (passed ++ [name]) here.dropLast rest
    else if isTooLong name then (t, .error (overlong making passed name rest))
    else match t.find? (here ++ [name]) with
      | some (.directory _) => t.descend making (passed ++ [name]) (here ++ [name]) rest
      | some (.file ..) => (t, .error (blocked making passed name rest))
      | none =>
        (t.insert (here ++ [name]) (.directory t.newDirectoryMode)).descend true
          (passed ++ [name]) (here ++ [name]) rest

def ensureDirectory (t : FileTree) (p : Path) : FileTree × Except DirectoryError Location :=
  match p.refused? with
  | some e => (t, .error ⟨p.parts, e⟩)
  | none => t.descend false [] [] p.parts

end LiteralGrammar.FileTree
