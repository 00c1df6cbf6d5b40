import LiteralGrammar.Decimal.Binary64
import Mathlib.Algebra.Order.Field.Power
import Mathlib.Data.Rat.Cast.Order
import Mathlib.Tactic.NormNum

/-!
Exact values. A finite binary number stands for a rational number, and the test for integers, which
looks at significand and scale, finds exactly those that stand for one.
-/
namespace LiteralGrammar.Decimal.Binary64

def magnitude (x : Binary64) : ℚ := x.significand * 2 ^ x.scale

/-- The number that is stood for, exactly. -/
def value? (x : Binary64) : Option ℚ :=
  if x.isFinite then some (if x.negative then -x.magnitude else x.magnitude) else none

theorem magnitude_nonneg (x : Binary64) : 0 ≤ x.magnitude :=
  mul_nonneg (Nat.cast_nonneg _) (zpow_nonneg (by norm_num) _)

theorem quotient_eq_some_iff {m unit : Nat} (positive : 0 < unit) (n : Nat) :
    (if m % unit = 0 then some (m / unit) else none) = some n ↔ m = n * unit := by
  constructor
  · intro found
    split at found
    case isTrue even =>
      cases found
      exact (Nat.div_mul_cancel (Nat.dvd_of_mod_eq_zero even)).symm
    case isFalse => cases found
  · rintro rfl
    rw [if_pos (Nat.mul_mod_left n unit), Nat.mul_div_cancel n positive]

theorem natAbs?_eq_some_iff (x : Binary64) (n : Nat) :
    x.natAbs? = some n ↔ x.isFinite = true ∧ x.magnitude = n := by
  unfold natAbs? magnitude
  by_cases finite : x.isFinite = true
  · rw [if_neg (by simp [finite]), and_iff_right finite]
    by_cases scale : 0 ≤ x.scale
    · obtain ⟨k, whole⟩ := Int.eq_ofNat_of_zero_le scale
      rw [if_pos scale, whole, Int.toNat_natCast, Nat.shiftLeft_eq, zpow_natCast, Option.some.injEq]
      norm_cast
    · obtain ⟨k, parts⟩ : ∃ k : Nat, x.scale = -(k : Int) := ⟨(-x.scale).toNat, by omega⟩
      have unit : (0 : ℚ) < 2 ^ k := pow_pos (by norm_num) k
      rw [if_neg scale, parts, neg_neg, Int.toNat_natCast, Nat.shiftLeft_eq, Nat.one_mul,
        quotient_eq_some_iff (Nat.two_pow_pos k), zpow_neg, zpow_natCast, ← div_eq_mul_inv,
        div_eq_iff unit.ne']
      norm_cast
  · simp [finite]

theorem int?_eq_some_iff_natAbs? (x : Binary64) (n : Int) :
    x.int? = some n ↔ ∃ m : Nat, x.natAbs? = some m ∧ (if x.negative then -(m : Int) else m) = n := by
  unfold int?
  cases x.natAbs? with
  | none => simp
  | some m => simp

theorem value?_eq_some_iff (x : Binary64) (q : ℚ) : x.value? = some q ↔
    x.isFinite = true ∧ (if x.negative then -x.magnitude else x.magnitude) = q := by
  rw [value?, Option.ite_none_right_eq_some, Option.some.injEq]

theorem cast_signed {x : Binary64} {m : Nat} (whole : x.magnitude = m) :
    ((if x.negative then -(m : Int) else m : Int) : ℚ) =
      if x.negative then -x.magnitude else x.magnitude := by
  rw [whole]
  split <;> push_cast <;> rfl

theorem int?_eq_some_iff (x : Binary64) (n : Int) : x.int? = some n ↔ x.value? = some (n : ℚ) := by
  rw [int?_eq_some_iff_natAbs?, value?_eq_some_iff]
  simp only [natAbs?_eq_some_iff]
  constructor
  · rintro ⟨m, ⟨finite, whole⟩, rfl⟩
    exact ⟨finite, (cast_signed whole).symm⟩
  · rintro ⟨finite, same⟩
    have size : |if x.negative then -x.magnitude else x.magnitude| = x.magnitude := by
      split <;> simp [abs_of_nonneg x.magnitude_nonneg]
    have whole : x.magnitude = n.natAbs := by
      rw [← size, same, Nat.cast_natAbs, Int.cast_abs]
    exact ⟨n.natAbs, ⟨finite, whole⟩, Int.cast_injective ((cast_signed whole).trans same)⟩

theorem value?_eq_zero_iff (x : Binary64) :
    x.value? = some 0 ↔ x.exponent = 0 ∧ x.fraction = 0 := by
  have unit : (2 : ℚ) ^ x.scale ≠ 0 := zpow_ne_zero _ (by norm_num)
  have signed : (if x.negative then -x.magnitude else x.magnitude) = 0 ↔ x.significand = 0 := by
    split <;> simp [magnitude, unit]
  rw [value?_eq_some_iff, signed, significand, isFinite]
  split
  case isTrue least => simp [least, exponentCount]
  case isFalse more => simp [more, hiddenBit]

theorem exists_ofBits (x : Binary64) : ∃ bits < 0x10000000000000000, ofBits bits = x := by
  obtain ⟨negative, exponent, fraction, exponent_lt, fraction_lt⟩ := x
  have he : exponent < 0x800 := exponent_lt
  have hf : fraction < 0x10000000000000 := fraction_lt
  have sign : negative.toNat ≤ 1 := negative.toNat_le
  let bits := negative.toNat * 0x8000000000000000 + exponent * 0x10000000000000 + fraction
  have upper : bits / 2 ^ 63 % 2 = negative.toNat := by simp only [bits]; omega
  have middle : bits / 2 ^ 52 % 0x800 = exponent := by simp only [bits]; omega
  have lower : bits % 0x10000000000000 = fraction := by simp only [bits]; omega
  refine ⟨bits, by simp only [bits]; omega, ?_⟩
  simp only [ofBits, mk.injEq, Nat.testBit_eq_decide_div_mod_eq, Nat.shiftRight_eq_div_pow, upper]
  exact ⟨by cases negative <;> rfl, middle, lower⟩

end LiteralGrammar.Decimal.Binary64
