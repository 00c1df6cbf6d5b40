import LiteralGrammar.Block.Tree
import LiteralGrammar.Proofs.Block.Walk

/-!
The strings of a tree.
-/
namespace LiteralGrammar.Block.Tree

mutual

def strings (key : Text) : Tree → List (Text × Text)
  | scalar (.text t) => [(key, t)]
  | scalar _ => []
  | foreign _ => []
  | sequence _ items => itemStrings key items
  | mapping _ entries => entryStrings entries

def itemStrings (key : Text) : List Tree → List (Text × Text)
  | [] => []
  | t :: rest => t.strings key ++ itemStrings key rest

def entryStrings : List (Key × Tree) → List (Text × Text)
  | [] => []
  | (key, t) :: rest => t.strings key.name ++ entryStrings rest

end

theorem strings_list (key : Text) (items : List Tree) :
    (list items).strings key = items.flatMap (strings key) := by
  rw [list, strings]
  induction items with
  | nil => rfl
  | cons t rest ih => rw [itemStrings, ih, List.flatMap_cons]

theorem strings_dict (key : Text) (entries : List (Text × Tree)) :
    (dict entries).strings key = entries.flatMap fun e => e.2.strings e.1 := by
  rw [dict, strings]
  induction entries with
  | nil => rfl
  | cons e rest ih =>
    rw [List.map_cons, entryStrings, ih, List.flatMap_cons]
    rfl

end LiteralGrammar.Block.Tree
