import LiteralGrammar.Given

/-!
The two quote characters that delimit string literals.
-/
namespace LiteralGrammar

inductive Quote where
  | single
  | double
deriving DecidableEq, Repr

namespace Quote

def all : List Quote := [single, double]

def char : Quote → Char
  | single => '\''
  | double => '"'

def label : Quote → Text
  | single => "single"
  | double => "double"

def name : Quote → Text
  | single => "SINGLE"
  | double => "DOUBLE"

def ofName? (name : Text) : Option Quote := all.find? (·.name = name)

def ofGiven? (given : Given) : Option Quote := all.find? fun q => given = .text [q.char]

end Quote

end LiteralGrammar
