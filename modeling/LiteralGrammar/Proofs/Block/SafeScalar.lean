import LiteralGrammar.Proofs.Block.Name
import LiteralGrammar.Proofs.Block.ScalarReading
import LiteralGrammar.Proofs.Text.Decimal

/-!
Scalars that are read back as what they were, and not as other scalars, items or entries.
-/
namespace LiteralGrammar.Block

def OpensSequence (line : Text) : Prop := line = "[]" ∨ ∃ rest, line = dash ++ rest

def OpensMapping (line : Text) : Prop :=
  line = "\x7b\x7d" ∨ ∃ name rest, isName name = true ∧ line = name ++ ':' :: rest

theorem not_opensMapping {line : Text} (opens : OpensSequence line) : ¬OpensMapping line := by
  have head : ∃ c ∈ ['[', '-'], line.head? = some c := by
    rcases opens with rfl | ⟨rest, rfl⟩
    · exact ⟨'[', by simp, rfl⟩
    · exact ⟨'-', by simp, rfl⟩
  obtain ⟨c, structural, head⟩ := head
  intro other
  rcases other with rfl | ⟨name, rest, named, rfl⟩
  · cases head
    exact absurd structural (by decide)
  · obtain ⟨d, later, rfl, first, -⟩ := isName_cons named
    cases head
    rcases List.mem_pair.mp structural with rfl | rfl <;> exact absurd first (by decide)

theorem mark_of_opens {line : Text} (opens : OpensSequence line ∨ OpensMapping line) :
    ∃ c ∈ ['[', '\x7b', ' ', ':'], c ∈ line := by
  rcases opens with (rfl | ⟨rest, rfl⟩) | (rfl | ⟨name, rest, -, rfl⟩)
  · exact ⟨'[', by simp, by decide⟩
  · exact ⟨' ', by simp, by simp [dash]⟩
  · exact ⟨'\x7b', by simp, by decide⟩
  · exact ⟨':', by simp, by simp⟩

theorem head_of_opens {line : Text} (opens : OpensSequence line ∨ OpensMapping line) :
    ∃ c, line.head? = some c ∧ (c ∈ ['[', '\x7b', '-'] ∨ c.isAlpha = true ∨ c = '_') := by
  rcases opens with (rfl | ⟨rest, rfl⟩) | (rfl | ⟨name, rest, named, rfl⟩)
  · exact ⟨'[', rfl, by simp⟩
  · exact ⟨'-', rfl, by simp⟩
  · exact ⟨'\x7b', rfl, by simp⟩
  · obtain ⟨c, later, rfl, first, -⟩ := isName_cons named
    exact ⟨c, rfl, .inr first⟩

namespace Scalar

def words : List Text := ["true", "false", "null"]

def IsLiteral (written : Text) : Prop := written ∈ words ∨ ∃ n, written = Text.ofInt n

/-- Not a fraction, and no text that is taken for something else where it stands bare. -/
def Safe : Scalar → Prop
  | text t => ScalarStyle.ofText t = .bare →
      ':' ∉ t ∧ t ∉ words ∧ ∀ n, t ≠ Text.ofInt n
  | integer _ | truth _ | null => True
  | double _ => False

def read (width : Nat) (written : Text) : Scalar :=
  if written = "true" then truth true
  else if written = "false" then truth false
  else if written = "null" then null
  else if written = Text.ofInt (Text.toInt written) then integer (Text.toInt written)
  else text (readText width written)

theorem isAlpha_of_mem_words {w : Text} (word : w ∈ words) : ∀ c ∈ w, c.isAlpha = true := by
  have letters : words.all (fun w => w.all Char.isAlpha) = true := by decide
  exact List.all_eq_true.mp (List.all_eq_true.mp letters w word)

theorem chars_of_isLiteral {written : Text} (literal : IsLiteral written) :
    ∀ c ∈ written, c.isAlphanum = true ∨ c = '-' := by
  intro c member
  rcases literal with word | ⟨n, rfl⟩
  · exact .inl (by simp [Char.isAlphanum, isAlpha_of_mem_words word c member])
  · rcases Text.mem_ofInt member with digit | minus
    · exact .inl (by simp [Char.isAlphanum, digit])
    · exact .inr minus

theorem not_isLiteral_writeText {t : Text} (safe : (text t).Safe) (width : Nat) :
    ¬IsLiteral (writeText width t) := by
  intro literal
  rcases head_writeText width t with ⟨style, same⟩ | ⟨c, quote, head⟩
  · obtain ⟨-, not_word, integer⟩ := safe style
    rw [same] at literal
    rcases literal with word | ⟨n, same⟩
    · exact not_word word
    · exact integer n same
  · have chars := chars_of_isLiteral literal c (List.mem_of_mem_head? head)
    simp only [ScalarStyle.marks, List.mem_cons, List.not_mem_nil, or_false] at quote
    rcases quote with rfl | rfl | rfl <;> exact absurd chars (by decide)

theorem ofInt_not_word (n : Int) : Text.ofInt n ∉ words := by
  intro member
  obtain ⟨d, rest, digit, written⟩ := Text.head_ofInt n
  have letter := isAlpha_of_mem_words member d (by rcases written with same | same <;> simp [same])
  have := Text.toNat_of_isAlpha letter
  have := Text.toNat_of_isDigit digit
  omega

theorem read_of_not_word {written : Text} (other : written ∉ words) (width : Nat) :
    read width written =
      if written = Text.ofInt (Text.toInt written) then integer (Text.toInt written)
      else text (readText width written) := by
  simp only [words, List.mem_cons, List.not_mem_nil, or_false, not_or] at other
  rw [read, if_neg other.1, if_neg other.2.1, if_neg other.2.2]

theorem read_written {s : Scalar} (safe : s.Safe) (width : Nat) : read width (s.written width) = s := by
  cases s with
  | text t =>
    obtain ⟨not_word, not_integer⟩ := not_or.mp (not_isLiteral_writeText safe width)
    rw [written, read_of_not_word not_word, if_neg fun same => not_integer ⟨_, same⟩,
      readText_writeText]
  | integer n => rw [written, read_of_not_word (ofInt_not_word n), Text.toInt_ofInt, if_pos rfl]
  | double x => exact safe.elim
  | truth b => cases b <;> rfl
  | null => rfl

theorem written_injective {a b : Scalar} (ha : a.Safe) (hb : b.Safe) {width : Nat}
    (same : a.written width = b.written width) : a = b := by
  rw [← read_written ha width, same, read_written hb width]

theorem isLiteral_written {s : Scalar} (safe : s.Safe) (other : ∀ t, s ≠ text t) (width : Nat) :
    IsLiteral (s.written width) := by
  cases s with
  | text t => exact absurd rfl (other t)
  | integer n => exact .inr ⟨n, rfl⟩
  | double => exact safe.elim
  | truth b => cases b <;> exact .inl (by simp [written, words])
  | null => exact .inl (by simp [written, words])

theorem clean_of_isLiteral {written : Text} (literal : IsLiteral written) : '\n' ∉ written :=
  fun member => absurd (chars_of_isLiteral literal _ member) (by decide)

theorem not_opens_of_bare {t : Text} (style : ScalarStyle.ofText t = .bare) (colon : ':' ∉ t) :
    ¬(OpensSequence t ∨ OpensMapping t) := by
  obtain ⟨d, rest, rfl, indicator, -⟩ := ScalarStyle.head_of_bare style
  have outside : d ≠ '[' ∧ d ≠ '\x7b' ∧ d ≠ '-' := by
    refine ⟨?_, ?_, ?_⟩ <;> exact fun same => indicator (by simp [same, ScalarStyle.indicators])
  intro opens
  rcases opens with (same | ⟨_, same⟩) | (same | ⟨name, rest, _, same⟩)
  · exact outside.1 (List.cons.inj same).1
  · exact outside.2.2 (List.cons.inj same).1
  · exact outside.2.1 (List.cons.inj same).1
  · exact colon (by simp [same])

theorem not_opens_of_quote {line : Text} {quote : Char} (member : quote ∈ ScalarStyle.marks)
    (start : line.head? = some quote) : ¬(OpensSequence line ∨ OpensMapping line) := by
  intro opens
  obtain ⟨c, head, first⟩ := head_of_opens opens
  rw [start] at head
  cases head
  simp only [ScalarStyle.marks, List.mem_cons, List.not_mem_nil, or_false] at member
  rcases member with rfl | rfl | rfl <;> exact absurd first (by decide)

theorem not_opens_of_isLiteral {line : Text} (literal : IsLiteral line) :
    ¬(OpensSequence line ∨ OpensMapping line) := by
  intro opens
  obtain ⟨mark, structural, inside⟩ := mark_of_opens opens
  have alphanumeric := chars_of_isLiteral literal mark inside
  simp only [List.mem_cons, List.not_mem_nil, or_false] at structural
  rcases structural with rfl | rfl | rfl | rfl <;> exact absurd alphanumeric (by decide)

theorem not_opens_firstLine {s : Scalar} (safe : s.Safe) (width : Nat) :
    ¬(OpensSequence (Text.firstLine (s.written width)) ∨
      OpensMapping (Text.firstLine (s.written width))) := by
  by_cases is_text : ∃ t, s = text t
  · obtain ⟨t, rfl⟩ := is_text
    rcases head_writeText width t with ⟨style, same⟩ | ⟨quote, member, start⟩
    · have line := Text.firstLine_of_clean (clean_of_style (t := t) (by simp [style]))
      rw [written, same, line]
      exact not_opens_of_bare style (safe style).1
    · have visible : quote ≠ '\n' := fun same => absurd (same ▸ member) (by decide)
      exact not_opens_of_quote member (Text.head_firstLine visible start)
  · have literal := isLiteral_written safe (fun t same => is_text ⟨t, same⟩) width
    rw [Text.firstLine_of_clean (clean_of_isLiteral literal)]
    exact not_opens_of_isLiteral literal

end Scalar

end LiteralGrammar.Block
