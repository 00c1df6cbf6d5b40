import LiteralGrammar.Combination
import LiteralGrammar.Rule

/-!
The rules of a grammar, in the order in which they are tried, and the grammar text.
-/
namespace LiteralGrammar

structure RuleSet where
  rules : List Rule
deriving DecidableEq, Repr

structure IndexOutOfRange where
  index : Int
deriving DecidableEq, Repr

def IndexOutOfRange.message (_ : IndexOutOfRange) : Text := "tuple index out of range"

namespace RuleSet

def size (s : RuleSet) : Nat := s.rules.length

def get (s : RuleSet) (index : Int) : Except IndexOutOfRange Rule :=
  let i := if index < 0 then index + s.size else index
  match if i < 0 then none else s.rules[i.toNat]? with
  | some r => .ok r
  | none => .error ⟨index⟩

/-- Tripled quotes come before single ones, which would match their first quote. -/
def variants : List (Quote × Bool) :=
  [(.single, true), (.double, true), (.single, false), (.double, false)]

def ofConfig (c : Config) : RuleSet where
  rules := (Combination.ofMarkers c.maxMarkers).flatMap fun markers =>
    variants.map fun (q, multiline) => Rule.ofMarkers c q multiline markers

def toDocument (s : RuleSet) : Block.Tree :=
  .dict [("strings", .dict [("patterns", .list (s.rules.map Rule.toTree))])]

def grammar (s : RuleSet) : Except Block.Fault Text :=
  Block.Writer.standard.serializeTree s.toDocument

end RuleSet

end LiteralGrammar
