import LiteralGrammar.Block.Fault
import LiteralGrammar.Decimal.Notation
import LiteralGrammar.Json.Quoted
import LiteralGrammar.Text.Lines

/-!
Scalars and their written form. A string is written in one of four styles, and the style can be
told from the first character of what is written.
-/
namespace LiteralGrammar.Block

inductive Scalar where
  | text (t : Text)
  | integer (n : Int)
  | double (x : Decimal.Binary64)
  | truth (b : Bool)
  | null
deriving DecidableEq, Repr

inductive ScalarStyle where
  | bare
  | singleQuoted
  | doubleQuoted
  | literalBlock
deriving DecidableEq, Repr

namespace ScalarStyle

def name : ScalarStyle → Text
  | bare => "bare"
  | singleQuoted => "single_quoted"
  | doubleQuoted => "double_quoted"
  | literalBlock => "literal_block"

def indicators : List Char :=
  ['-', ':', '|', '#', '\'', '[', ']', '{', '}', ',', '&', '*', '?', '<', '>', '=', '!', '%', '@']

def controls : List Char := ['\x08', '\x0C', '\n', '\r', '\t']

def needsQuotes (first last : Char) : Bool :=
  Text.isBlank first || indicators.contains first || Text.isBlank last || last = ':'

def needsEscapes (t : Text) : Bool := t.head? = some '"' || t.any controls.contains

/-- The style of a string: line feeds first, then quotes, then escapes. The empty string is quoted,
since bare it would read as nothing at all. -/
def ofText (t : Text) : ScalarStyle :=
  if '\n' ∈ t then literalBlock
  else match t.head?, t.getLast? with
    | some first, some last =>
      if needsQuotes first last then singleQuoted
      else if needsEscapes t then doubleQuoted
      else bare
    | _, _ => singleQuoted

end ScalarStyle

def singleQuoted (t : Text) : Text :=
  '\'' :: t.flatMap (fun c => if c = '\'' then ['\'', '\''] else [c]) ++ ['\'']

def writeText (width : Nat) (t : Text) : Text :=
  match ScalarStyle.ofText t with
  | .literalBlock => '|' :: '\n' :: Text.indent width t
  | .singleQuoted => singleQuoted t
  | .doubleQuoted => Json.quoted t
  | .bare => t

namespace Scalar

def written (width : Nat) : Scalar → Text
  | text t => writeText width t
  | integer n => Text.ofInt n
  | double x => x.text
  | truth b => if b then "true" else "false"
  | null => "null"

/-- Doubles print integers of few digits only. -/
def fault? (r : Runtime) : Scalar → Option Fault
  | integer n => r.fault? n
  | _ => none

def write (r : Runtime) (width : Nat) (s : Scalar) : Except Fault Text :=
  orFault (s.fault? r) (s.written width)

end Scalar

end LiteralGrammar.Block
