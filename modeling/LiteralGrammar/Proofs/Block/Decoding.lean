import LiteralGrammar.Proofs.Block.Refinement
import LiteralGrammar.Proofs.Block.ScalarReading

/-!
One reader for all strings. The first character of what is written tells the style, and undoing that
style gives the string again.
-/
namespace LiteralGrammar.Block

namespace ScalarStyle

def ofMark : Option Char → ScalarStyle
  | some '|' => literalBlock
  | some '\'' => singleQuoted
  | some '"' => doubleQuoted
  | _ => bare

theorem ofMark_of_unmarked {c : Char} (unmarked : c ∉ marks) : ofMark (some c) = bare := by
  simp only [marks, List.mem_cons, List.not_mem_nil, or_false, not_or] at unmarked
  simp [ofMark, unmarked]

end ScalarStyle

theorem ofMark_head_writeText (width : Nat) (t : Text) :
    ScalarStyle.ofMark (writeText width t).head? = ScalarStyle.ofText t := by
  unfold writeText
  cases style : ScalarStyle.ofText t with
  | literalBlock => rfl
  | singleQuoted => rfl
  | doubleQuoted => rfl
  | bare =>
    obtain ⟨c, rest, rfl, unmarked⟩ := ScalarStyle.unmarked_of_bare style
    exact ScalarStyle.ofMark_of_unmarked unmarked

theorem several_writeText_iff (width : Nat) (t : Text) :
    '\n' ∈ writeText width t ↔ ScalarStyle.ofText t = .literalBlock := by
  by_cases style : ScalarStyle.ofText t = .literalBlock
  · simp [writeText_literal style, style]
  · simp [clean_writeText style, style]

namespace Writer

theorem serializeTree_text (w : Writer) (t : Text) :
    w.serializeTree (.text t) = .ok (writeText w.indentWidth t) :=
  w.serializeTree_scalar (.text t)

/-- What is written for a string tells its style by the first character, and the reader that goes by
that character gives the string again; so no two strings are written alike. A bare string is written
as it is and opens like no other style, and only literal blocks have several lines. -/
theorem strings_read_back (w : Writer) :
    (∀ t, ∃ written, w.serializeTree (.text t) = .ok written ∧
      readText w.indentWidth written = t ∧
      ScalarStyle.ofMark written.head? = ScalarStyle.ofText t ∧
      ('\n' ∈ written ↔ ScalarStyle.ofText t = .literalBlock)) ∧
    Function.Injective (writeText w.indentWidth) ∧
    (∀ t, ScalarStyle.ofText t = .bare →
      writeText w.indentWidth t = t ∧ ∀ c ∈ t.head?, c ∉ ScalarStyle.marks) := by
  refine ⟨?_, fun s t => writeText_injective, ?_⟩
  · intro t
    exact ⟨_, w.serializeTree_text t, readText_writeText _ t, ofMark_head_writeText _ t,
      several_writeText_iff _ t⟩
  · intro t style
    obtain ⟨c, rest, rfl, unmarked⟩ := ScalarStyle.unmarked_of_bare style
    exact ⟨by rw [writeText, style], by simpa using unmarked⟩

theorem strings_read_back_wide_space :
    let several : Text := "it's\n\u3000\n  'b'\n"
    let single : Text := "it's: \"x\""
    (∃ written, standard.serializeTree (.text several) = .ok written ∧
      readText standard.indentWidth written = several ∧
      ScalarStyle.ofMark written.head? = ScalarStyle.ofText several ∧
      ('\n' ∈ written ↔ ScalarStyle.ofText several = .literalBlock)) ∧
    ScalarStyle.ofText single = .bare ∧ writeText standard.indentWidth single = single ∧
      ∀ c ∈ single.head?, c ∉ ScalarStyle.marks := by
  intro several single
  have bare : ScalarStyle.ofText single = .bare := rfl
  obtain ⟨read, -, unquoted⟩ := strings_read_back standard
  exact ⟨read several, bare, unquoted single bare⟩

end Writer

end LiteralGrammar.Block
