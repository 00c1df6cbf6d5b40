import LiteralGrammar.Text.Lines

/-!
How written parts are put together: inline between brackets and braces, or in blocks, one item or
entry after another.
-/
namespace LiteralGrammar.Block

inductive Layout where
  | inline
  | block
deriving DecidableEq, Repr

def isNumeric (name : Text) : Bool := name ≠ [] && name.all Char.isDigit

def inlineSequence (items : List Text) : Text := '[' :: Text.join ", " items ++ [']']

def inlineMapping (entries : List (Text × Text)) : Text :=
  '{' :: Text.join ", " (entries.map fun (name, value) => name ++ ": " ++ value) ++ ['}']

def dash : Text := "- "

/-- Items of scalars only: the lines of an item stay where its own writing put them. -/
def flatItems (items : List Text) : Text := Text.unlines (items.map (dash ++ ·))

/-- The further lines of an item stand below the text behind its dash. -/
def hungItems (items : List Text) : Text :=
  Text.unlines (items.map fun item => dash ++ Text.hang dash.length item)

def blockEntry (width : Nat) (name value : Text) (nested : Bool) : Text :=
  if ¬isNumeric name ∧ (nested ∨ '\n' ∈ value) then name ++ ":\n" ++ Text.indent width value
  else name ++ ": " ++ value

end LiteralGrammar.Block
