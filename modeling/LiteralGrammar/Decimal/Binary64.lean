/-!
Binary floating-point numbers of 64 bits, as the three fields of their bit pattern. A finite one
stands for its significand times two to its scale, exactly.
-/
namespace LiteralGrammar.Decimal

def exponentCount : Nat := 0x800

def hiddenBit : Nat := 0x10000000000000

structure Binary64 where
  negative : Bool
  exponent : Nat
  fraction : Nat
  exponent_lt : exponent < exponentCount := by decide
  fraction_lt : fraction < hiddenBit := by decide
deriving DecidableEq, Repr

namespace Binary64

def ofBits (bits : Nat) : Binary64 where
  negative := bits.testBit 63
  exponent := bits >>> 52 % exponentCount
  fraction := bits % hiddenBit
  exponent_lt := Nat.mod_lt _ (by decide)
  fraction_lt := Nat.mod_lt _ (by decide)

def isFinite (x : Binary64) : Bool := x.exponent < exponentCount - 1

def isNaN (x : Binary64) : Bool := !x.isFinite && x.fraction ≠ 0

/-- The least exponent has no hidden bit. -/
def significand (x : Binary64) : Nat :=
  if x.exponent = 0 then x.fraction else hiddenBit + x.fraction

def scale (x : Binary64) : Int :=
  if x.exponent = 0 then -1074 else (x.exponent : Int) - 1075

def isNarrowBelow (x : Binary64) : Bool := x.fraction = 0 && 1 < x.exponent

def natAbs? (x : Binary64) : Option Nat :=
  if ¬x.isFinite then none
  else if 0 ≤ x.scale then some (x.significand <<< x.scale.toNat)
  else
    let unit := 1 <<< (-x.scale).toNat
    if x.significand % unit = 0 then some (x.significand / unit) else none

/-- The value, if it is an integer. Both zeros are the integer zero. -/
def int? (x : Binary64) : Option Int :=
  x.natAbs?.map fun n => if x.negative then -(n : Int) else n

end Binary64

end LiteralGrammar.Decimal
