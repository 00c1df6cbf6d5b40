import LiteralGrammar.Proofs.Block.Cutting
import LiteralGrammar.Proofs.Text.Ascii

/-!
Names: keys that can always be told in a block.
-/
namespace LiteralGrammar.Block

def isName : Text → Bool
  | [] => false
  | c :: rest => (c.isAlpha || c = '_') && rest.all fun d => d.isAlphanum || d = '_'

theorem isName_cons {name : Text} (named : isName name = true) : ∃ c rest, name = c :: rest ∧
    (c.isAlpha = true ∨ c = '_') ∧ ∀ d ∈ rest, d.isAlphanum = true ∨ d = '_' := by
  cases name with
  | nil => exact absurd named (by decide)
  | cons c rest => exact ⟨c, rest, rfl, by simpa [isName] using named⟩

theorem isLabel_of_isName {name : Text} (named : isName name = true) : IsLabel name := by
  obtain ⟨c, rest, rfl, first, later⟩ := isName_cons named
  have outside : ∀ mark : Char, mark.isAlphanum = false → mark ≠ '_' → mark ∉ c :: rest := by
    intro mark other underscore member
    rcases List.mem_cons.mp member with same | inside
    · subst same
      rcases first with letter | same
      · simp [Char.isAlphanum, letter] at other
      · exact underscore same
    · rcases later mark inside with letter | same
      · exact absurd letter (by simp [other])
      · exact underscore same
  refine ⟨⟨c, rfl, ?_⟩, outside _ (by decide) (by decide), outside _ (by decide) (by decide), ?_⟩
  · rcases first with letter | same
    · have codes := Text.toNat_of_isAlpha letter
      exact Text.not_isBlank_of_visible (by omega) (by omega)
    · rw [same]
      decide
  · have other : ¬c.isDigit = true := by
      intro digit
      have codes := Text.toNat_of_isDigit digit
      rcases first with letter | same
      · have := Text.toNat_of_isAlpha letter
        omega
      · rw [same] at digit
        exact absurd digit (by decide)
    simp [isNumeric, other]

end LiteralGrammar.Block
