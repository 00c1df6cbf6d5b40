import LiteralGrammar.Text.Basic

/-!
JSON strings. The quote, the backslash and U+0000 to U+001F are escaped, five of them with a letter;
every other character stands for itself.
-/
namespace LiteralGrammar.Json

def letter? (c : Char) : Option Char :=
  if c = '"' ∨ c = '\\' then some c
  else if c = '\x08' then some 'b'
  else if c = '\x0C' then some 'f'
  else if c = '\n' then some 'n'
  else if c = '\r' then some 'r'
  else if c = '\t' then some 't'
  else none

def escapeChar (c : Char) : Text :=
  match letter? c with
  | some l => ['\\', l]
  | none => if c.toNat < 0x20 then "\\u" ++ Text.ofNatHex 4 c.toNat else [c]

def quoted (t : Text) : Text := '"' :: t.flatMap escapeChar ++ ['"']

end LiteralGrammar.Json
