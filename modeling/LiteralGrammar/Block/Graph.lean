import LiteralGrammar.Block.Key
import LiteralGrammar.Block.Scalar

/-!
Values as graphs. A container has an identity and may be held in several places, also inside itself.
A graph says what each identity holds.
-/
namespace LiteralGrammar.Block

inductive Slot (ν : Type) where
  | scalar (s : Scalar)
  | foreign (typeName : Text)
  | held (id : ν)
deriving DecidableEq, Repr

inductive Container (ν : Type) where
  | sequence (typeName : Text) (items : List (Slot ν))
  | mapping (typeName : Text) (entries : List (Key × Slot ν))
deriving DecidableEq, Repr

def Container.typeName {ν : Type} : Container ν → Text
  | sequence name _ => name
  | mapping name _ => name

abbrev Graph (ν : Type) := ν → Container ν

variable {ν : Type}

def Graph.isContainer (_ : Graph ν) : Slot ν → Bool
  | .held _ => true
  | _ => false

def Graph.isNested (g : Graph ν) : Slot ν → Bool
  | .held id => match g id with
    | .sequence .. => true
    | .mapping _ entries => !entries.isEmpty
  | _ => false

end LiteralGrammar.Block
