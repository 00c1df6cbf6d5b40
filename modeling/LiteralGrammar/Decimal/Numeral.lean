import LiteralGrammar.Decimal.Digit
import LiteralGrammar.Text.Blank

/-!
Reading an integer: blanks around it, a sign, and decimal digits of any script with single
underscores between them. The four separators U+001C to U+001F are blank elsewhere but not here.
-/
namespace LiteralGrammar.Decimal

def longestNumeral : Nat := 4300

/-- A lower limit cannot be set. -/
def leastLongest : Nat := 640

def surrounds (c : Char) : Bool := Text.isBlank c && !(0x1C ≤ c.toNat && c.toNat < 0x20)

def trim (t : Text) : Text :=
  ((t.dropWhile surrounds).reverse.dropWhile surrounds).reverse

def digits? : Text → Option (List Nat)
  | [] => none
  | [c] => (digit? c).map ([·])
  | c :: '_' :: rest => do
    let d ← digit? c
    let ds ← digits? rest
    return d :: ds
  | c :: rest => do
    let d ← digit? c
    let ds ← digits? rest
    return d :: ds

def nat? (t : Text) : Option Nat := do
  let ds ← digits? t
  if longestNumeral < ds.length then none else some (ds.foldl (fun n d => 10 * n + d) 0)

def int? (t : Text) : Option Int :=
  match trim t with
  | '-' :: rest => (nat? rest).map fun n => -(n : Int)
  | '+' :: rest => (nat? rest).map fun n => (n : Int)
  | unsigned => (nat? unsigned).map fun n => (n : Int)

end LiteralGrammar.Decimal
