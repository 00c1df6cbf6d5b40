import LiteralGrammar.Proofs.Pattern.Greedy
import LiteralGrammar.Proofs.Rule.Opening

/-!
What the opening of a rule captures: where the flag and the delimiter cannot go on, its first way
reads all of both.
-/
namespace LiteralGrammar.Rule

theorem takes_flag {ms : List Marker} {f rest : Text} (isFlag : IsFlag ms f)
    (stops : Text.Stops (· ∈ ms.map Marker.symbol) rest) : (flag ms).Takes f rest := by
  match ms with
  | [] => subst isFlag; exact Pattern.takes_empty rest
  | [m] => subst isFlag; exact Pattern.takes_char m.symbol rest
  | _ :: _ :: _ =>
    refine Pattern.takes_plus (fun _ => rfl) isFlag.1 ?_ ?_
    · simpa only [decide_eq_true_eq] using isFlag.2
    · simpa only [decide_eq_true_eq] using stops

theorem takes_delimiter {q : Quote} {multiline : Bool} {d rest : Text}
    (delimits : IsDelimiter q multiline d)
    (ends : multiline = true → Text.Stops (· = q.char) rest) :
    (delimiter q multiline).Takes d rest := by
  cases multiline with
  | false =>
    obtain ⟨k, one, rfl⟩ := delimits
    obtain rfl : k = 1 := one
    exact Pattern.takes_char q.char rest
  | true =>
    obtain ⟨run, ⟨nonempty, marks⟩, rfl⟩ := (isDelimiter_multiline q d).mp delimits
    have whole : (Pattern.plus (.char q.char)).Takes run rest := by
      refine Pattern.takes_plus (fun _ => rfl) nonempty ?_ ?_
      · simpa only [decide_eq_true_eq] using marks
      · simpa only [decide_eq_true_eq] using ends rfl
    have second := Pattern.takes_seq (Pattern.takes_char q.char _) whole
    exact Pattern.takes_seq (Pattern.takes_char q.char _) second

theorem takes_blanks (t : Text) :
    blanks.Takes (t.takeWhile Text.isBlank) (t.dropWhile Text.isBlank) := by
  refine Pattern.takes_star (fun _ => rfl) (List.all_eq_true.mp List.all_takeWhile) ?_
  intro c head
  have stopped := List.head?_dropWhile_not Text.isBlank t
  rw [Option.mem_def.mp head] at stopped
  simp [stopped]

theorem match_opening {q : Quote} {multiline : Bool} {ms : List Marker} {w f d rest : Text}
    (blank : ∀ c ∈ w, Text.isBlank c = true) (isFlag : IsFlag ms f)
    (delimits : IsDelimiter q multiline d)
    (visible : Text.Stops (Text.isBlank ·) (f ++ (d ++ rest)))
    (stops : Text.Stops (· ∈ ms.map Marker.symbol) (d ++ rest))
    (ends : multiline = true → Text.Stops (· = q.char) rest) :
    (openingOf q multiline ms).match? (w ++ (f ++ (d ++ rest))) =
      some ⟨rest.dropWhile Text.isBlank, [(delimiterGroup, d), (flagGroup, f)]⟩ := by
  have front : blanks.Takes w (f ++ (d ++ rest)) := Pattern.takes_star (fun _ => rfl) blank visible
  have flagged := Pattern.head_group (takes_flag isFlag stops) flagGroup []
  have delimited := Pattern.head_group (takes_delimiter delimits ends) delimiterGroup
    [(flagGroup, f)]
  have behind := takes_blanks rest
  rw [Pattern.Takes, List.takeWhile_append_dropWhile] at behind
  refine Pattern.head_seq (front ..) (Pattern.head_seq flagged (Pattern.head_seq ?_ (behind ..)))
  rw [Pattern.groupCount, groupCount_flag]
  exact delimited

end LiteralGrammar.Rule
