import LiteralGrammar.Decimal.Notation
import LiteralGrammar.Proofs.Text.Decimal

/-!
The characters of numbers: letters and digits, points and signs. A number that is not written as an
integer shows it by a point, by an exponent or by a word.
-/
namespace LiteralGrammar.Decimal

def InNumber (c : Char) : Prop := c.isAlphanum = true ∨ c ∈ ['.', '+', '-']

instance : DecidablePred InNumber := fun c => by unfold InNumber; infer_instance

def Numeric (t : Text) : Prop := ∀ c ∈ t, InNumber c

instance : DecidablePred Numeric := fun t => List.decidableBAll InNumber t

namespace Numeric

theorem append {s t : Text} (hs : Numeric s) (ht : Numeric t) : Numeric (s ++ t) :=
  List.forall_mem_append.mpr ⟨hs, ht⟩

theorem take {t : Text} (ht : Numeric t) (n : Nat) : Numeric (t.take n) :=
  fun c member => ht c (List.mem_of_mem_take member)

theorem drop {t : Text} (ht : Numeric t) (n : Nat) : Numeric (t.drop n) :=
  fun c member => ht c (List.mem_of_mem_drop member)

theorem zeros (n : Nat) : Numeric (List.replicate n '0') := by
  intro c member
  rw [List.eq_of_mem_replicate member]
  decide

theorem ofDigit {c : Char} (digit : c.isDigit = true) : InNumber c :=
  .inl (by simp [Char.isAlphanum, digit])

theorem ofNat (n : Nat) : Numeric (Text.ofNat n) :=
  fun _ member => ofDigit (Text.isDigit_of_mem_ofNat member)

theorem ofInt (n : Int) : Numeric (Text.ofInt n) := by
  intro c member
  rcases Text.mem_ofInt member with digit | rfl
  · exact ofDigit digit
  · decide

theorem positional {digits : Text} (hd : Numeric digits) (point : Int) :
    Numeric (positional digits point) := by
  unfold Decimal.positional
  split
  · exact (append (by decide) (zeros _)).append hd
  · refine (((hd.take _).append (zeros _)).append (by decide)).append ?_
    split
    · decide
    · exact hd.drop _

theorem signed (exponent : Int) : Numeric (signed exponent) := by
  refine List.forall_mem_cons.mpr ⟨?_, (zeros _).append (ofNat _)⟩
  split <;> decide

theorem scientific {digits : Text} (hd : Numeric digits) (exponent : Int) :
    Numeric (scientific digits exponent) := by
  refine (((hd.take 1).append ?_).append (by decide)).append (signed exponent)
  split
  · decide
  · exact List.forall_mem_cons.mpr ⟨by decide, hd.drop 1⟩

theorem shortest (d : Digits) : Numeric d.text := by
  simp only [Digits.text]
  split
  · exact (ofNat d.digits).positional _
  · exact (ofNat d.digits).scientific _

theorem binary (x : Binary64) : Numeric x.text := by
  have sign : Numeric (Binary64.text.sign x) := by
    unfold Binary64.text.sign
    split <;> decide
  unfold Binary64.text
  split
  · split
    · exact ofInt _
    · exact sign.append (shortest x.shortest)
  · split
    · decide
    · split
      · exact sign.append (shortest x.shortest)
      · exact sign.append (by decide)

end Numeric

theorem mem_positional (digits : Text) (point : Int) : '.' ∈ positional digits point := by
  unfold positional
  split <;> simp

theorem mem_scientific (digits : Text) (exponent : Int) : 'e' ∈ scientific digits exponent := by
  simp [scientific]

theorem head_positional {c : Char} {rest : Text} (digit : c.isDigit = true) (point : Int) :
    ∃ d ∈ (positional (c :: rest) point).head?, d.isDigit = true := by
  unfold positional
  split
  case isTrue => exact ⟨'0', rfl, rfl⟩
  case isFalse above =>
    obtain ⟨k, whole⟩ : ∃ k : Nat, point.toNat = k + 1 := ⟨point.toNat - 1, by omega⟩
    refine ⟨c, ?_, digit⟩
    simp [whole, List.rightpad]

namespace Digits

theorem point_or_exponent (d : Digits) : '.' ∈ d.text ∨ 'e' ∈ d.text := by
  simp only [text]
  split
  · exact .inl (mem_positional _ _)
  · exact .inr (mem_scientific _ _)

theorem head_text (d : Digits) : ∃ c ∈ d.text.head?, c.isDigit = true := by
  obtain ⟨c, rest, written, digit⟩ := Text.head_ofNat d.digits
  simp only [text, written]
  split
  · exact head_positional digit _
  · exact ⟨c, rfl, digit⟩

end Digits

namespace Binary64

variable {x : Binary64}

theorem text_of_int {n : Int} (whole : x.int? = some n) (small : n.natAbs < integralLimit) :
    x.text = Text.ofInt n := by
  rw [text, whole]
  exact if_pos small

theorem text_cases (other : ∀ n, x.int? = some n → integralLimit ≤ n.natAbs) :
    x.text = "nan" ∨ x.text = text.sign x ++ "inf" ∨ x.text = text.sign x ++ x.shortest.text := by
  unfold text
  split
  case h_1 n whole => exact .inr (.inr (if_neg (Nat.not_lt.mpr (other n whole))))
  case h_2 =>
    split
    · exact .inl rfl
    · split
      · exact .inr (.inr rfl)
      · exact .inr (.inl rfl)

theorem text_ne_ofInt (other : ∀ n, x.int? = some n → integralLimit ≤ n.natAbs) (n : Int) :
    x.text ≠ Text.ofInt n := by
  intro same
  have absent {c : Char} (mark : ¬(c.isDigit = true ∨ c = '-')) (member : c ∈ x.text) : False :=
    mark (Text.mem_ofInt (same ▸ member))
  rcases text_cases other with word | word | shortest
  · exact absent (c := 'a') (by decide) (by simp [word])
  · exact absent (c := 'i') (by decide) (by simp [word])
  · rcases x.shortest.point_or_exponent with point | exponent
    · exact absent (c := '.') (by decide) (by simp [shortest, point])
    · exact absent (c := 'e') (by decide) (by simp [shortest, exponent])

theorem sign_eq (x : Binary64) : text.sign x = [] ∨ text.sign x = ['-'] := by
  unfold text.sign
  split
  · exact .inr rfl
  · exact .inl rfl

end Binary64

end LiteralGrammar.Decimal
