import LiteralGrammar.Text.Basic

/-!
White space: the 25 code points with the Unicode property White_Space and the four separators
U+001C to U+001F. Nothing else counts as blank, so a zero-width space does not.
-/
namespace LiteralGrammar.Text

def blankRanges : List (Nat × Nat) :=
  [(0x09, 0x0D), (0x1C, 0x20), (0x85, 0x85), (0xA0, 0xA0), (0x1680, 0x1680), (0x2000, 0x200A),
   (0x2028, 0x2029), (0x202F, 0x202F), (0x205F, 0x205F), (0x3000, 0x3000)]

def isBlank (c : Char) : Bool := inRanges blankRanges c

def words (t : Text) : List Text := (t.splitOnP isBlank).filter (· ≠ [])

def collapseBlanks (t : Text) : Text := join " " (words t)

end LiteralGrammar.Text
