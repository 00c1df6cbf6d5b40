import LiteralGrammar.Text.Blank

/-!
Lines and indentation. Only a line feed ends a line; a line of blanks is never indented, so that
blank lines of a text come through unchanged.
-/
namespace LiteralGrammar.Text

def lines (t : Text) : List Text := t.splitOn '\n'

def unlines (ls : List Text) : Text := join "\n" ls

def isBlankLine (line : Text) : Bool := line.all isBlank

def spaces (n : Nat) : Text := List.replicate n ' '

def indentLine (width : Nat) (line : Text) : Text :=
  if isBlankLine line then line else spaces width ++ line

def indent (width : Nat) (t : Text) : Text := unlines ((lines t).map (indentLine width))

/-- Every line but the first, blank or not, moves right by `width` spaces. -/
def hang (width : Nat) (t : Text) : Text :=
  t.flatMap fun c => if c = '\n' then '\n' :: spaces width else [c]

end LiteralGrammar.Text
