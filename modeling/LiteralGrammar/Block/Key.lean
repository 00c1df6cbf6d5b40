import LiteralGrammar.Block.Fault
import LiteralGrammar.Decimal.Binary64

/-!
Keys of mappings. Texts and integers can be written; other keys can occur, are told apart by value,
and are refused by name.
-/
namespace LiteralGrammar.Block

inductive Key where
  | text (t : Text)
  | integer (n : Int)
  | truth (b : Bool)
  | double (x : Decimal.Binary64)
  | foreign (typeName : Text)
deriving DecidableEq, Repr

namespace Key

def name : Key → Text
  | text t => t
  | integer n => Text.ofInt n
  | _ => []

def fault? (r : Runtime) (place : Place) : Key → Option Fault
  | text _ => none
  | integer n => r.fault? n
  | truth _ => some (.unsupportedKey "bool" place)
  | double _ => some (.unsupportedKey "float" place)
  | foreign typeName => some (.unsupportedKey typeName place)

def write (r : Runtime) (place : Place) (key : Key) : Except Fault Text :=
  orFault (key.fault? r place) key.name

/-- The integer that the key equals: truth values count as one and zero. -/
def int? : Key → Option Int
  | integer n => some n
  | truth b => some (if b then 1 else 0)
  | double x => x.int?
  | text _ | foreign _ => none

def Same : Key → Key → Prop
  | text s, text t => s = t
  | a, b => a.int? = b.int? ∧ a.int? ≠ none

instance (a b : Key) : Decidable (Same a b) := by
  unfold Same; split <;> infer_instance

/-- The value goes to the entry with the same key, which keeps its place and its spelling, or else
to a new last entry. -/
def insert {α : Type} (entries : List (Key × α)) (key : Key) (value : α) : List (Key × α) :=
  match entries with
  | [] => [(key, value)]
  | (k, v) :: rest => if Same k key then (k, value) :: rest else (k, v) :: insert rest key value

def collect {α : Type} (pairs : List (Key × α)) : List (Key × α) :=
  pairs.foldl (fun entries (key, value) => insert entries key value) []

end Key

end LiteralGrammar.Block
