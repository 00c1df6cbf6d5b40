import LiteralGrammar.Text.Printable

/-!
How messages show a text that was given: between quotes, with everything that does not print
written as an escape. Apostrophes are the quotes unless the text has apostrophes and no double
quote.
-/
namespace LiteralGrammar.Text

def outerQuote (t : Text) : Char :=
  if '\'' ∈ t ∧ '"' ∉ t then '"' else '\''

def showChar (quote c : Char) : Text :=
  if c = quote ∨ c = '\\' then ['\\', c]
  else if c = '\n' then "\\n"
  else if c = '\r' then "\\r"
  else if c = '\t' then "\\t"
  else if isPrintable c then [c]
  else if c.toNat < 0x100 then "\\x" ++ ofNatHex 2 c.toNat
  else if c.toNat < 0x10000 then "\\u" ++ ofNatHex 4 c.toNat
  else "\\U" ++ ofNatHex 8 c.toNat

def shown (t : Text) : Text :=
  let quote := outerQuote t
  quote :: t.flatMap (showChar quote) ++ [quote]

end LiteralGrammar.Text
