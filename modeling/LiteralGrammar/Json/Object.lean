import LiteralGrammar.Json.Quoted

/-!
Flat JSON objects on one line: members in order, each a text or a natural number.
-/
namespace LiteralGrammar.Json

inductive Atom where
  | text (t : Text)
  | number (n : Nat)
deriving DecidableEq, Repr

def Atom.write : Atom → Text
  | text t => quoted t
  | number n => Text.ofNat n

abbrev Object := List (Text × Atom)

def Object.write (members : Object) : Text :=
  '{' :: Text.join ", " (members.map fun (name, value) => quoted name ++ ": " ++ value.write) ++ ['}']

end LiteralGrammar.Json
