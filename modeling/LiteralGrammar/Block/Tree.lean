import LiteralGrammar.Block.Writer

/-!
Values as trees, where no container is held twice. The identity of a container is the way to it:
the index of the child to take at each step from the root.
-/
namespace LiteralGrammar.Block

inductive Tree where
  | scalar (s : Scalar)
  | foreign (typeName : Text)
  | sequence (typeName : Text) (items : List Tree)
  | mapping (typeName : Text) (entries : List (Key × Tree))
deriving Repr

namespace Tree

def text (t : Text) : Tree := scalar (.text t)

def list (items : List Tree) : Tree := sequence "list" items

def dict (entries : List (Text × Tree)) : Tree :=
  mapping "dict" (entries.map fun (name, value) => (.text name, value))

def children : Tree → List Tree
  | sequence _ items => items
  | mapping _ entries => entries.map Prod.snd
  | _ => []

def find? (t : Tree) : List Nat → Option Tree
  | [] => some t
  | i :: way => t.children[i]?.bind (·.find? way)

def slot (way : List Nat) : Tree → Slot (List Nat)
  | scalar s => .scalar s
  | foreign typeName => .foreign typeName
  | sequence .. | mapping .. => .held way

def container (way : List Nat) : Tree → Container (List Nat)
  | sequence typeName items =>
    .sequence typeName (items.zipIdx.map fun (t, i) => t.slot (way ++ [i]))
  | mapping typeName entries =>
    .mapping typeName (entries.zipIdx.map fun ((key, t), i) => (key, t.slot (way ++ [i])))
  | _ => .sequence [] []

def graph (t : Tree) : Graph (List Nat) := fun way =>
  match t.find? way with
  | some s => s.container way
  | none => .sequence [] []

end Tree

def Writer.serializeTree (w : Writer) (t : Tree) : Except Fault Text :=
  w.serialize t.graph (t.slot [])

end LiteralGrammar.Block
