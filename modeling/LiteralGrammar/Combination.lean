import LiteralGrammar.Marker

/-!
Combinations: the sublists of a list in the order of their binary masks, and the order in which
rules are made from them. Longer combinations come first, since a shorter opening listed earlier
would be tried before a longer one.
-/
namespace LiteralGrammar.Combination

variable {α : Type}

def select (mask : Nat) (items : List α) : List α :=
  (items.zipIdx.filter fun (_, i) => mask.testBit i).map Prod.fst

def powerSet (items : List α) : List (List α) :=
  (List.range (1 <<< items.length)).map (select · items)

def powerSetUpTo (cap : Nat) (items : List α) : List (List α) :=
  (powerSet items).filter (·.length ≤ cap)

structure NegativeCap where
  cap : Int
deriving DecidableEq, Repr

def NegativeCap.message (e : NegativeCap) : Text :=
  "max_len must be >= 0, got " ++ Text.ofInt e.cap

def bounded (cap : Option Int) (items : List α) : Except NegativeCap (List (List α)) :=
  match cap with
  | none => .ok (powerSetUpTo items.length items)
  | some n => if n < 0 then .error ⟨n⟩ else .ok (powerSetUpTo n.toNat items)

/-- Longest first; combinations of one length keep their order. -/
def longestFirst (combinations : List (List α)) : List (List α) :=
  combinations.mergeSort fun a b => b.length ≤ a.length

def ofMarkers (cap : Nat) : List (List Marker) :=
  longestFirst (powerSetUpTo cap Marker.canonical)

end LiteralGrammar.Combination
