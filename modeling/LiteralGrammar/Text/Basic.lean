/-!
Texts are lists of code points, so that the laws of lines, quoting and layout can be stated by
recursion on them. String literals coerce; only programs that print convert back.
-/
namespace LiteralGrammar

abbrev Text := List Char

instance : Coe String Text := ⟨String.toList⟩

namespace Text

def join (gap : Text) (parts : List Text) : Text := List.intercalate gap parts

def ofNat (n : Nat) : Text := Nat.toDigits 10 n

def ofInt : Int → Text
  | .ofNat n => ofNat n
  | .negSucc n => '-' :: ofNat (n + 1)

def ofNatHex (width n : Nat) : Text := (Nat.toDigits 16 n).leftpad width '0'

def byteSize : Text → Nat
  | [] => 0
  | c :: rest => c.utf8Size + byteSize rest

def utf8 (t : Text) : List UInt8 := t.flatMap String.utf8EncodeChar

theorem length_utf8 (t : Text) : (utf8 t).length = byteSize t := by
  induction t with
  | nil => rfl
  | cons c rest ih => simpa [utf8, byteSize, String.length_utf8EncodeChar] using ih

/-- Whether the first text is the second or stands before it in the order of code points. -/
def notAfter (s t : Text) : Bool := !List.lex t s fun a b => a.toNat < b.toNat

def inRanges (ranges : List (Nat × Nat)) (c : Char) : Bool :=
  ranges.any fun r => r.1 ≤ c.toNat && c.toNat ≤ r.2

end Text

end LiteralGrammar
