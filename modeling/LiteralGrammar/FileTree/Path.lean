import LiteralGrammar.Text.Basic

/-!
Paths as they are given, without what does not matter: empty and `.` components are dropped, and
`..` stays, since what it leads to depends on the tree.
-/
namespace LiteralGrammar

/-- The components outermost first, behind no slash, one, or exactly two. -/
structure Path where
  root : Text
  parts : List Text
deriving DecidableEq, Repr

namespace Path

def rootOf (t : Text) : Text :=
  match t.takeWhile (· = '/') with
  | [] => []
  | ['/', '/'] => "//"
  | _ => "/"

def ofText (t : Text) : Path where
  root := rootOf t
  parts := (t.splitOn '/').filter fun part => part ≠ [] ∧ part ≠ "."

def text (p : Path) : Text :=
  if p.root = [] ∧ p.parts = [] then "." else p.root ++ Text.join "/" p.parts

def longestName : Nat := 255

def longestText : Nat := 4095

def isTooLong (p : Path) : Bool := longestText < p.text.byteSize

def hasNul (p : Path) : Bool := p.parts.any (·.contains '\x00')

def parent (p : Path) : Path := { p with parts := p.parts.dropLast }

def name (p : Path) : Text := p.parts.getLast?.getD []

end Path

end LiteralGrammar
