import LiteralGrammar.Proofs.Pattern.Matching
import LiteralGrammar.Rule

/-!
Openings: what the opening pattern of a rule matches. Its ways to read a text are exactly the cuts
of the text into blanks, a flag of the markers, a delimiter of the quote, blanks, and a rest.
-/
namespace LiteralGrammar.Rule

/-- The flags of a combination: several symbols may come in any order and number. -/
def IsFlag : List Marker → Text → Prop
  | [], f => f = []
  | [m], f => f = [m.symbol]
  | ms, f => f ≠ [] ∧ ∀ c ∈ f, c ∈ ms.map Marker.symbol

def IsDelimiter (q : Quote) (multiline : Bool) (d : Text) : Prop :=
  ∃ n, (if multiline then 3 ≤ n else n = 1) ∧ d = List.replicate n q.char

theorem reads_flag (ms : List Marker) : (flag ms).Reads (IsFlag ms) := by
  match ms with
  | [] => exact Pattern.reads_empty
  | [m] => exact Pattern.reads_char m.symbol
  | m :: m' :: rest =>
    intro n s e
    have reads := Pattern.reads_plus (p := .oneOf ((m :: m' :: rest).map Marker.symbol))
      (fun _ => rfl) n s e
    simpa only [flag, IsFlag, decide_eq_true_eq] using reads

theorem isDelimiter_multiline (q : Quote) (t : Text) :
    IsDelimiter q true t ↔
      ∃ run : Text, (run ≠ [] ∧ ∀ c ∈ run, c = q.char) ∧ t = q.char :: q.char :: run := by
  constructor
  · intro read
    obtain ⟨k, long, rfl⟩ := read
    simp only [↓reduceIte] at long
    obtain ⟨k, rfl⟩ := Nat.exists_eq_add_of_le' long
    refine ⟨List.replicate (k + 1) q.char, ⟨by simp, ?_⟩, by simp [List.replicate_succ]⟩
    exact fun c member => List.eq_of_mem_replicate member
  · intro read
    obtain ⟨run, ⟨nonempty, all⟩, rfl⟩ := read
    refine ⟨run.length + 2, ?_, ?_⟩
    · have := List.length_pos_iff.mpr nonempty
      simp only [↓reduceIte]
      omega
    · simp [List.replicate_succ, ← List.eq_replicate_of_mem all]

theorem reads_delimiter (q : Quote) (multiline : Bool) :
    (delimiter q multiline).Reads (IsDelimiter q multiline) := by
  intro n s e
  cases multiline with
  | false =>
    rw [show delimiter q false = .char q.char from rfl, Pattern.reads_char]
    simp [IsDelimiter]
  | true =>
    have run : (Pattern.plus (.char q.char)).Reads fun t => t ≠ [] ∧ ∀ c ∈ t, c = q.char := by
      simpa only [decide_eq_true_eq] using
        Pattern.reads_plus (p := .char q.char) (fun _ => rfl)
    have reads := Pattern.reads_seq (Pattern.reads_char q.char)
      (Pattern.reads_seq (Pattern.reads_char q.char) run) n s e
    rw [show delimiter q true = .seq (.char q.char) (.seq (.char q.char) (.plus (.char q.char)))
      from rfl, reads]
    have marks : ∀ t : Text, (∃ u v, u = [q.char] ∧ (∃ u' v', u' = [q.char] ∧
        (v' ≠ [] ∧ ∀ c ∈ v', c = q.char) ∧ v = u' ++ v') ∧ t = u ++ v) ↔
        IsDelimiter q true t := by
      intro t
      rw [isDelimiter_multiline]
      constructor
      · intro read
        obtain ⟨_, _, rfl, ⟨_, run, rfl, run_marks, rfl⟩, rfl⟩ := read
        exact ⟨run, run_marks, rfl⟩
      · intro read
        obtain ⟨run, run_marks, rfl⟩ := read
        exact ⟨_, _, rfl, ⟨_, run, rfl, run_marks, rfl⟩, rfl⟩
    simp only [marks]

theorem reads_blanks : blanks.Reads fun t => ∀ c ∈ t, Text.isBlank c = true :=
  Pattern.reads_star fun _ => rfl

theorem groupCount_flag (ms : List Marker) : (flag ms).groupCount = 0 := by
  match ms with
  | [] | [_] | _ :: _ :: _ => rfl

theorem mem_ways_opening (q : Quote) (multiline : Bool) (ms : List Marker)
    (s e : Pattern.Cursor) :
    e ∈ (openingOf q multiline ms).ways 1 s ↔
      ∃ w f d v, (∀ c ∈ w, Text.isBlank c = true) ∧ IsFlag ms f ∧ IsDelimiter q multiline d ∧
        (∀ c ∈ v, Text.isBlank c = true) ∧ s.ahead = w ++ (f ++ (d ++ (v ++ e.ahead))) ∧
        e.groups = (delimiterGroup, d) :: (flagGroup, f) :: s.groups := by
  simp only [openingOf, Pattern.inOrder, Pattern.mem_ways_seq,
    Pattern.mem_ways_group (reads_flag ms), Pattern.mem_ways_group (reads_delimiter q multiline),
    reads_blanks _ _ _, Pattern.groupCount, groupCount_flag]
  constructor
  · intro read
    obtain ⟨s₁, ⟨w, hw, split₁, kept₁⟩, s₂, ⟨f, hf, split₂, kept₂⟩, s₃, ⟨d, hd, split₃,
      kept₃⟩, v, hv, split₄, kept₄⟩ := read
    refine ⟨w, f, d, v, hw, hf, hd, hv, by rw [split₁, split₂, split₃, split₄], ?_⟩
    rw [kept₄, kept₃, kept₂, kept₁]
    rfl
  · intro read
    obtain ⟨w, f, d, v, hw, hf, hd, hv, split, kept⟩ := read
    exact ⟨⟨f ++ (d ++ (v ++ e.ahead)), s.groups⟩, ⟨w, hw, split, rfl⟩,
      ⟨d ++ (v ++ e.ahead), (flagGroup, f) :: s.groups⟩, ⟨f, hf, rfl, rfl⟩,
      ⟨v ++ e.ahead, (delimiterGroup, d) :: (flagGroup, f) :: s.groups⟩, ⟨d, hd, rfl, rfl⟩,
      v, hv, rfl, kept⟩

end LiteralGrammar.Rule
