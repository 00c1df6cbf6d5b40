import LiteralGrammar.Proofs.Block.Refinement
import LiteralGrammar.Proofs.Block.SafeScalar
import LiteralGrammar.Proofs.Decimal.Notation
import LiteralGrammar.Proofs.Decimal.Value
import Mathlib.Data.Nat.Digits.Defs

/-!
Numbers of either kind. A binary number that stands for an integer of moderate size is written as
that integer, digit by digit, and every other one is written like no integer, truth value or null.
-/
namespace LiteralGrammar.Block

open Decimal (Binary64 integralLimit)

namespace Scalar

theorem not_word_of_head {t : Text} {c : Char} (head : t.head? = some c)
    (mark : c.isDigit = true ∨ c = '-') : t ∉ words := by
  intro word
  have codes := Text.toNat_of_isAlpha (isAlpha_of_mem_words word c (List.mem_of_mem_head? head))
  rcases mark with digit | rfl
  · have := Text.toNat_of_isDigit digit
    omega
  · exact absurd codes (by decide)

theorem not_isLiteral_double {x : Binary64}
    (other : ∀ n, x.int? = some n → integralLimit ≤ n.natAbs) : ¬IsLiteral x.text := by
  rintro (word | ⟨n, same⟩)
  · rcases Binary64.text_cases other with nan | inf | shortest
    · rw [nan] at word
      exact absurd word (by decide)
    · rw [inf] at word
      rcases x.sign_eq with sign | sign <;> rw [sign] at word <;> exact absurd word (by decide)
    · obtain ⟨c, head, digit⟩ := x.shortest.head_text
      rw [shortest] at word
      rcases x.sign_eq with sign | sign <;> rw [sign] at word
      · exact not_word_of_head head (.inl digit) word
      · exact not_word_of_head rfl (.inr rfl) word
  · exact Binary64.text_ne_ofInt other n same

end Scalar

theorem Runtime.prints_of_lt (r : Runtime) {n : Int} (small : n.natAbs < 10 ^ Decimal.leastLongest) :
    r.Prints n := by
  intro most limited
  have least := r.longestNumeral_ge
  rw [limited, Option.all_some, decide_eq_true_eq] at least
  exact Nat.le_trans (Nat.toDigits_length 10 _ _ (by decide) small) least

namespace Writer

/-- A binary number that stands for an integer below 10^21 is written as that integer, in exact decimal
digits; both zeros stand for zero, and nothing else does. Every other number, a fraction, a large
integer, an infinity or none at all, is written unlike all integers, truth values and null. The
numbers are the bit patterns of 64 bits. -/
theorem integral_doubles_as_integers (w : Writer) (x : Binary64) :
    (∃ bits < 0x10000000000000000, Binary64.ofBits bits = x) ∧
    (x.value? = some 0 ↔ x.exponent = 0 ∧ x.fraction = 0) ∧
    (∀ n : Int, x.value? = some (n : ℚ) → n.natAbs < 10 ^ 21 →
      w.serializeTree (.scalar (.double x)) = w.serializeTree (.scalar (.integer n)) ∧
      w.serializeTree (.scalar (.integer n)) = .ok (Text.ofInt n) ∧
      Text.toInt (Text.ofInt n) = n) ∧
    ((∀ n : Int, x.value? = some (n : ℚ) → 10 ^ 21 ≤ n.natAbs) →
      ∃ text, w.serializeTree (.scalar (.double x)) = .ok text ∧
        (∀ n, w.serializeTree (.scalar (.integer n)) ≠ .ok text) ∧
        (∀ b, w.serializeTree (.scalar (.truth b)) ≠ .ok text) ∧
        w.serializeTree (.scalar .null) ≠ .ok text) := by
  refine ⟨x.exists_ofBits, x.value?_eq_zero_iff, ?_, ?_⟩
  · intro n whole small
    have written := Binary64.text_of_int ((x.int?_eq_some_iff n).mpr whole) small
    have short : 10 ^ 21 ≤ 10 ^ Decimal.leastLongest := Nat.pow_le_pow_right (by decide) (by decide)
    have printed := w.runtime.prints_of_lt (Nat.lt_of_lt_of_le small short)
    have as_integer := w.serializeTree_written (s := .integer n) printed
    rw [w.serializeTree_written (s := .double x) trivial]
    exact ⟨(congrArg Except.ok written).trans as_integer.symm, as_integer, Text.toInt_ofInt n⟩
  · intro other
    have unlike : ¬Scalar.IsLiteral x.text := Scalar.not_isLiteral_double fun n whole =>
      other n ((x.int?_eq_some_iff n).mp whole)
    have differs {s : Scalar} (safe : s.Safe) (no_text : ∀ t, s ≠ .text t) :
        w.serializeTree (.scalar s) ≠ .ok x.text := by
      intro same
      obtain ⟨-, -, written⟩ := (w.serializeTree_eq_ok_iff_fits _ _).mp same
      exact unlike (written ▸ Scalar.isLiteral_written safe no_text w.indentWidth)
    exact ⟨x.text, w.serializeTree_written (s := .double x) trivial, fun n => differs (s := .integer n) trivial (by simp),
      fun b => differs (s := .truth b) trivial (by simp), differs (s := .null) trivial (by simp)⟩

/-- Minus 10^20, where the shortest digits would take an exponent; minus zero; and 10^21. -/
theorem integral_doubles_as_integers_large :
    let large : Binary64 := .ofBits 0xC415AF1D78B58C40
    let minusZero : Binary64 := .ofBits 0x8000000000000000
    let huge : Binary64 := .ofBits 0x444B1AE4D6E2EF50
    large.value? = some ((-100000000000000000000 : Int) : ℚ) ∧
    (-100000000000000000000 : Int).natAbs < 10 ^ 21 ∧
    standard.serializeTree (.scalar (.double large)) = .ok "-100000000000000000000" ∧
    minusZero.value? = some 0 ∧
    standard.serializeTree (.scalar (.double minusZero)) = .ok "0" ∧
    (∀ n : Int, huge.value? = some (n : ℚ) → 10 ^ 21 ≤ n.natAbs) ∧
    standard.serializeTree (.scalar (.integer (10 ^ 21))) ≠
      standard.serializeTree (.scalar (.double huge)) := by
  intro large minusZero huge
  have whole := (large.int?_eq_some_iff (-100000000000000000000)).mp (by decide)
  have small : (-100000000000000000000 : Int).natAbs < 10 ^ 21 := by decide
  obtain ⟨-, -, integral, -⟩ := integral_doubles_as_integers standard large
  obtain ⟨-, zero, integral_zero, -⟩ := integral_doubles_as_integers standard minusZero
  obtain ⟨-, -, -, other⟩ := integral_doubles_as_integers standard huge
  have minus_zero := zero.mpr ⟨rfl, rfl⟩
  have far : ∀ n : Int, huge.value? = some (n : ℚ) → 10 ^ 21 ≤ n.natAbs := by
    intro n value
    have found := (huge.int?_eq_some_iff n).mpr value
    have known : huge.int? = some 1000000000000000000000 := by decide
    rw [← Option.some.inj (known.symm.trans found)]
    decide
  obtain ⟨text, wrote, unlike, -⟩ := other far
  obtain ⟨same, digits, -⟩ := integral _ whole small
  obtain ⟨same_zero, digits_zero, -⟩ := integral_zero 0 minus_zero (by decide)
  exact ⟨whole, small, same.trans digits, minus_zero, same_zero.trans digits_zero, far,
    fun equal => unlike _ (equal.trans wrote)⟩

end Writer

end LiteralGrammar.Block
