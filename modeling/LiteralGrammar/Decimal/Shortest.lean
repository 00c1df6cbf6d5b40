import LiteralGrammar.Decimal.Binary64

/-!
The decimal with the fewest digits that reads back to a given binary number. Among the decimals of
that length it is the nearest to the number, and of two equally near the even one.

All comparisons are between natural numbers: the number and the ends of the interval of reals that
round to it are whole multiples of one power of ten.
-/
namespace LiteralGrammar.Decimal

structure Digits where
  digits : Nat
  exponent : Int
deriving DecidableEq, Repr

structure Interval where
  low : Nat
  value : Nat
  high : Nat
  exponent : Int
  /-- The ends round to the number too, which they do when its significand is even. -/
  closed : Bool
deriving DecidableEq, Repr

namespace Interval

def Holds (i : Interval) (n : Nat) : Prop :=
  if i.closed then i.low ≤ n ∧ n ≤ i.high else i.low < n ∧ n < i.high

instance (i : Interval) (n : Nat) : Decidable (i.Holds n) := by
  unfold Holds; infer_instance

/-- The ends lie half-way to the neighbours, a quarter of the gap above when narrow below. -/
def ofBinary (x : Binary64) : Interval :=
  let quarter := x.scale - 2
  let unit := if 0 ≤ quarter then 1 <<< quarter.toNat else Nat.pow 5 (-quarter).toNat
  let m := x.significand
  { low := (4 * m - if x.isNarrowBelow then 1 else 2) * unit
    value := 4 * m * unit
    high := (4 * m + 2) * unit
    exponent := min quarter 0
    closed := m % 2 = 0 }

def nearest? (i : Interval) (step : Nat) : Option Nat :=
  let below := i.value / step
  let above := below + 1
  match decide (i.Holds (below * step)), decide (i.Holds (above * step)) with
  | false, false => none
  | true, false => some below
  | false, true => some above
  | true, true =>
    match compare (2 * i.value) ((below + above) * step) with
    | .lt => some below
    | .gt => some above
    | .eq => some (if below % 2 = 0 then below else above)

/-- Steps of `10 ^ k` from coarse to fine; the number itself is a multiple of the last. -/
def shortestFrom (i : Interval) : Nat → Digits
  | 0 => ⟨i.value, i.exponent⟩
  | k + 1 =>
    match i.nearest? (Nat.pow 10 (k + 1)) with
    | some n => ⟨n, i.exponent + (k + 1)⟩
    | none => i.shortestFrom k

end Interval

def Digits.normalize (d : Digits) : Digits :=
  if h : d.digits ≠ 0 ∧ d.digits % 10 = 0 then
    Digits.normalize ⟨d.digits / 10, d.exponent + 1⟩
  else d
termination_by d.digits
decreasing_by omega

def Binary64.shortest (x : Binary64) : Digits :=
  let i := Interval.ofBinary x
  (i.shortestFrom (Nat.toDigits 10 i.value).length).normalize

end LiteralGrammar.Decimal
