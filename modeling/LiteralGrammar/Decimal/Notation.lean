import LiteralGrammar.Text.Basic
import LiteralGrammar.Decimal.Shortest

/-!
How binary numbers are written. An integer of magnitude below 10^21 is written in full, as the
integer itself; every other finite number with the fewest digits that read back, positionally when
its leading digit counts between 10^-4 and 10^15 and with a signed exponent of at least two digits
otherwise.
-/
namespace LiteralGrammar.Decimal

def integralLimit : Nat := 1000000000000000000000

/-- The digits with a point `point` places behind the start of the first one. -/
def positional (digits : Text) (point : Int) : Text :=
  if point ≤ 0 then "0." ++ List.replicate (-point).toNat '0' ++ digits
  else
    let whole := digits.take point.toNat
    let fraction := digits.drop point.toNat
    whole.rightpad point.toNat '0' ++ "." ++ if fraction = [] then ['0'] else fraction

def signed (exponent : Int) : Text :=
  (if exponent < 0 then '-' else '+') :: (Text.ofNat exponent.natAbs).leftpad 2 '0'

def scientific (digits : Text) (exponent : Int) : Text :=
  let fraction := digits.drop 1
  digits.take 1 ++ (if fraction = [] then [] else '.' :: fraction) ++ "e" ++ signed exponent

def Digits.text (d : Digits) : Text :=
  let digits := Text.ofNat d.digits
  let point := d.exponent + digits.length
  if -4 < point ∧ point ≤ 16 then positional digits point else scientific digits (point - 1)

def Binary64.text (x : Binary64) : Text :=
  match x.int? with
  | some n => if n.natAbs < integralLimit then Text.ofInt n else sign ++ x.shortest.text
  | none =>
    if x.isNaN then "nan"
    else if x.isFinite then sign ++ x.shortest.text
    else sign ++ "inf"
where
  sign : Text := if x.negative then "-" else ""

end LiteralGrammar.Decimal
