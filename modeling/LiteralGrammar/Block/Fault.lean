import LiteralGrammar.Decimal.Numeral
import LiteralGrammar.Depth
import LiteralGrammar.Diagnostic.Report

/-!
Places inside a value, and why a value cannot be written.
-/
namespace LiteralGrammar.Block

inductive Step where
  | key (name : Text)
  | item (index : Nat)
deriving DecidableEq, Repr

abbrev Place := List Step

def Step.text : Step → Text
  | key name => '.' :: name
  | item index => '[' :: Text.ofNat index ++ [']']

def Place.text (place : Place) : Text := '$' :: place.flatMap Step.text

inductive Fault where
  | unsupported (typeName : Text) (place : Place)
  | unsupportedKey (typeName : Text) (place : Place)
  | cyclic (typeName : Text) (place : Place)
  | tooDeep (limit : Int)
  /-- An integer of more digits than are printed; nobody says where it is. -/
  | longNumeral (most : Nat)
deriving DecidableEq, Repr

namespace Fault

def kind? : Fault → Option ErrorKind
  | unsupported .. | unsupportedKey .. => some .unsupportedValue
  | cyclic .. => some .cyclicValue
  | tooDeep .. => some .depthExceeded
  | longNumeral .. => none

def report : Fault → Report
  | unsupported name place => .diagnosed (.unsupportedValue name place.text)
  | unsupportedKey name place => .diagnosed (.unsupportedValue (name ++ " key") place.text)
  | cyclic name place => .diagnosed (.cyclicValue name place.text)
  | tooDeep limit => .diagnosed (.depthExceeded limit)
  | longNumeral most => .note ("Exceeds the limit (" ++ Text.ofNat most ++ " digits) for integer " ++
      "string conversion; use sys.set_int_max_str_digits() to increase the limit")

end Fault

def orFault {α : Type} (fault : Option Fault) (value : α) : Except Fault α :=
  match fault with
  | some f => .error f
  | none => .ok value

structure Runtime where
  stack : Int := Depth.standardStack
  longestNumeral : Option Nat := some Decimal.longestNumeral
  longestNumeral_ge : longestNumeral.all (Decimal.leastLongest ≤ ·) = true := by decide
deriving DecidableEq, Repr

def Runtime.fault? (r : Runtime) (n : Int) : Option Fault :=
  (r.longestNumeral.filter (· < (Text.ofNat n.natAbs).length)).map .longNumeral

end LiteralGrammar.Block
