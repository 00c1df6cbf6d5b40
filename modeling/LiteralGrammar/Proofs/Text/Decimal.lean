import LiteralGrammar.Text.Basic

/-!
Decimal integers: what is written is digits behind at most a minus sign, and is read back.
-/
namespace LiteralGrammar.Text

theorem ofNat_ne_nil (n : Nat) : ofNat n ≠ [] := Nat.toDigits_ne_nil

theorem isDigit_of_mem_ofNat {n : Nat} {c : Char} (member : c ∈ ofNat n) : c.isDigit = true :=
  Nat.isDigit_of_mem_toDigits (by decide) (by decide) member

theorem head_ofNat (n : Nat) : ∃ d rest, ofNat n = d :: rest ∧ d.isDigit = true := by
  cases digits : ofNat n with
  | nil => exact absurd digits (ofNat_ne_nil n)
  | cons d rest => exact ⟨d, rest, rfl, isDigit_of_mem_ofNat (n := n) (by simp [digits])⟩

theorem eq_zero_of_ofNat_eq {n : Nat} {rest : Text} (written : ofNat n = '0' :: rest) : n = 0 := by
  induction n using Nat.strongRecOn generalizing rest with
  | ind n ih =>
    by_cases single : n < 10
    · have only : ∀ n < 10, n.digitChar = '0' → n = 0 := by decide
      rw [ofNat, Nat.toDigits_of_lt_base single] at written
      exact only n single (List.cons.inj written).1
    · obtain ⟨d, front, same, -⟩ := head_ofNat (n / 10)
      rw [ofNat] at same
      rw [ofNat, Nat.toDigits_of_base_le (by decide) (by omega), same] at written
      have zero : d = '0' := (List.cons.inj written).1
      rw [zero] at same
      have := ih (n / 10) (by omega) same
      omega

theorem head_ofInt (n : Int) :
    ∃ d rest, d.isDigit = true ∧ (ofInt n = d :: rest ∨ ofInt n = '-' :: d :: rest) := by
  cases n with
  | ofNat n =>
    obtain ⟨d, rest, written, digit⟩ := head_ofNat n
    exact ⟨d, rest, digit, .inl written⟩
  | negSucc n =>
    obtain ⟨d, rest, written, digit⟩ := head_ofNat (n + 1)
    exact ⟨d, rest, digit, .inr (by rw [ofInt, written])⟩

theorem mem_ofInt {n : Int} {c : Char} (member : c ∈ ofInt n) : c.isDigit = true ∨ c = '-' := by
  cases n with
  | ofNat n => exact .inl (isDigit_of_mem_ofNat member)
  | negSucc n =>
    rcases List.mem_cons.mp member with same | digit
    · exact .inr same
    · exact .inl (isDigit_of_mem_ofNat digit)

def toInt : Text → Int
  | '-' :: digits => -Nat.ofDigitChars 10 digits 0
  | digits => Nat.ofDigitChars 10 digits 0

theorem toInt_ofInt (n : Int) : toInt (ofInt n) = n := by
  cases n with
  | ofNat n =>
    obtain ⟨d, rest, written, digit⟩ := head_ofNat n
    have unsigned : d ≠ '-' := by
      intro same
      rw [same] at digit
      exact absurd digit (by decide)
    have read : toInt (d :: rest) = Nat.ofDigitChars 10 (d :: rest) 0 := by
      rw [toInt]
      intro _ same
      exact absurd (List.cons.inj same).1 unsigned
    rw [ofInt, written, read, ← written, ofNat, Nat.ofDigitChars_ten_toDigits]
    rfl
  | negSucc n =>
    rw [ofInt, toInt, ofNat, Nat.ofDigitChars_ten_toDigits]
    rfl

end LiteralGrammar.Text
