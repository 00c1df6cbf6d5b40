import LiteralGrammar.Proofs.Text.Words
import LiteralGrammar.Text.Lines

/-!
Texts and their lines: cutting into lines and joining them undo each other, and indenting and
hanging work line by line. Indenting can be undone.
-/
namespace LiteralGrammar.Text

theorem unlines_lines (t : Text) : unlines (lines t) = t := List.intercalate_splitOn '\n'

theorem lines_unlines {ls : List Text} (clean : ∀ l ∈ ls, '\n' ∉ l) (nonempty : ls ≠ []) :
    lines (unlines ls) = ls :=
  List.splitOn_intercalate '\n' clean nonempty

theorem lines_of_clean {t : Text} (clean : '\n' ∉ t) : lines t = [t] :=
  List.splitOn_eq_singleton clean

theorem lines_append_break (s t : Text) : lines (s ++ '\n' :: t) = lines s ++ lines t :=
  List.splitOn_append_cons_self s t

theorem lines_injective {s t : Text} (same : lines s = lines t) : s = t := by
  rw [← unlines_lines s, same, unlines_lines]

def firstLine (t : Text) : Text := (lines t).headD []

def laterLines (t : Text) : List Text := (lines t).tail

theorem lines_eq (t : Text) : lines t = firstLine t :: laterLines t := by
  unfold firstLine laterLines
  cases split : lines t with
  | nil => exact absurd split (List.splitOn_ne_nil '\n' t)
  | cons l ls => rfl

theorem lines_cons (c : Char) (t : Text) :
    lines (c :: t) = if c = '\n' then [] :: lines t else (c :: firstLine t) :: laterLines t := by
  unfold lines
  rw [List.splitOn_cons_eq_if_modifyHead]
  change (if (c == '\n') = true then _ else (lines t).modifyHead _) = _
  rw [lines_eq t]
  simp

theorem clean_of_mem_lines {t l : Text} (member : l ∈ lines t) : '\n' ∉ l := by
  intro inside
  have parts : l ∈ t.splitOnP (· == '\n') := member
  exact absurd (mem_splitOnP parts '\n' inside).2 (by decide)

theorem lines_append {s : Text} (clean : '\n' ∉ s) (t : Text) :
    lines (s ++ t) = (s ++ firstLine t) :: laterLines t := by
  induction s with
  | nil => exact lines_eq t
  | cons c s ih =>
    obtain ⟨other, clean⟩ := not_or.mp (mt List.mem_cons.mpr clean)
    have ih := ih clean
    rw [lines_eq] at ih
    obtain ⟨first, later⟩ := List.cons.inj ih
    rw [List.cons_append, lines_cons, if_neg (Ne.symm other), first, later]
    rfl

theorem firstLine_of_clean {t : Text} (clean : '\n' ∉ t) : firstLine t = t := by
  rw [firstLine, lines_of_clean clean, List.headD_cons]

theorem laterLines_of_clean {t : Text} (clean : '\n' ∉ t) : laterLines t = [] := by
  rw [laterLines, lines_of_clean clean, List.tail_cons]

theorem firstLine_of_lines {t line : Text} {rest : List Text} (cut : lines t = line :: rest) :
    firstLine t = line := by
  rw [firstLine, cut, List.headD_cons]

theorem laterLines_of_lines {t line : Text} {rest : List Text} (cut : lines t = line :: rest) :
    laterLines t = rest := by
  rw [laterLines, cut, List.tail_cons]

theorem head_firstLine {t : Text} {c : Char} (visible : c ≠ '\n') (head : t.head? = some c) :
    (firstLine t).head? = some c := by
  obtain ⟨rest, rfl⟩ := List.head?_eq_some_iff.mp head
  rw [firstLine, lines_cons, if_neg visible]
  rfl

theorem unlines_cons (l : Text) {ls : List Text} (nonempty : ls ≠ []) :
    unlines (l :: ls) = l ++ '\n' :: unlines ls := by
  rw [unlines, join, List.intercalate_cons_of_ne_nil nonempty]
  simp [unlines, join]

theorem lines_unlines_flatMap {ts : List Text} (nonempty : ts ≠ []) :
    lines (unlines ts) = ts.flatMap lines := by
  induction ts with
  | nil => exact absurd rfl nonempty
  | cons t rest ih =>
    cases rest with
    | nil => simp [unlines, join]
    | cons u rest =>
      rw [unlines_cons t (List.cons_ne_nil u rest), lines_append_break, ih (by simp)]
      rfl

theorem spaces_add (m n : Nat) : spaces (m + n) = spaces m ++ spaces n :=
  List.replicate_append_replicate.symm

theorem isBlank_space : isBlank ' ' = true := by decide

theorem isBlankLine_spaces_append (width : Nat) (line : Text) :
    isBlankLine (spaces width ++ line) = isBlankLine line := by
  unfold isBlankLine
  rw [List.all_append, spaces, List.all_replicate, isBlank_space]
  simp

theorem isBlankLine_indentLine (width : Nat) (line : Text) :
    isBlankLine (indentLine width line) = isBlankLine line := by
  unfold indentLine
  split
  · rfl
  · exact isBlankLine_spaces_append width line

theorem clean_spaces (width : Nat) : '\n' ∉ spaces width := by
  intro member
  exact absurd (List.eq_of_mem_replicate member) (by decide)

theorem clean_indentLine {line : Text} (clean : '\n' ∉ line) (width : Nat) :
    '\n' ∉ indentLine width line := by
  unfold indentLine
  split
  · exact clean
  · rw [List.mem_append]
    exact not_or.mpr ⟨clean_spaces width, clean⟩

theorem lines_indent (width : Nat) (t : Text) :
    lines (indent width t) = (lines t).map (indentLine width) := by
  refine lines_unlines ?_ (by rw [lines_eq]; simp)
  intro line member
  obtain ⟨source, inside, rfl⟩ := List.mem_map.mp member
  exact clean_indentLine (clean_of_mem_lines inside) width

def dedentLine (width : Nat) (line : Text) : Text :=
  if isBlankLine line then line else line.drop width

def dedent (width : Nat) (t : Text) : Text := unlines ((lines t).map (dedentLine width))

theorem dedentLine_indentLine (width : Nat) (line : Text) :
    dedentLine width (indentLine width line) = line := by
  unfold dedentLine
  rw [isBlankLine_indentLine, indentLine]
  cases isBlankLine line with
  | true => rfl
  | false => simp [spaces]

theorem dedent_indent (width : Nat) (t : Text) : dedent width (indent width t) = t := by
  have each : dedentLine width ∘ indentLine width = id :=
    funext fun line => dedentLine_indentLine width line
  rw [dedent, lines_indent, List.map_map, each, List.map_id, unlines_lines]

theorem indent_injective {width : Nat} {s t : Text} (same : indent width s = indent width t) :
    s = t := by
  rw [← dedent_indent width s, same, dedent_indent]

theorem lines_hang (width : Nat) (t : Text) :
    lines (hang width t) = firstLine t :: (laterLines t).map (spaces width ++ ·) := by
  induction t with
  | nil => rfl
  | cons c t ih =>
    rw [lines_eq] at ih
    obtain ⟨first, later⟩ := List.cons.inj ih
    rw [firstLine, laterLines, lines_cons, hang, List.flatMap_cons, ← hang]
    by_cases h : c = '\n'
    · rw [if_pos h, if_pos h, List.cons_append, lines_cons, if_pos rfl,
        lines_append (clean_spaces width), first, later, lines_eq t]
      rfl
    · rw [if_neg h, if_neg h, List.singleton_append, lines_cons, if_neg h, first, later]
      rfl

theorem lines_append_of_last {t last : Text} {front : List Text} (cut : lines t = front ++ [last])
    (u : Text) : lines (t ++ u) = front ++ (last ++ firstLine u) :: laterLines u := by
  have clean : ∀ l ∈ front ++ [last], '\n' ∉ l := fun l member => clean_of_mem_lines (cut ▸ member)
  rw [← unlines_lines t, cut]
  clear cut
  induction front with
  | nil =>
    rw [List.nil_append, unlines, join, List.intercalate_singleton,
      lines_append (clean last (by simp))]
    rfl
  | cons l front ih =>
    obtain ⟨first, clean⟩ := List.forall_mem_cons.mp clean
    rw [List.cons_append, unlines_cons l (by simp), List.append_assoc, List.cons_append,
      lines_append_break, ih clean, lines_of_clean first]
    rfl

theorem several_iff (t : Text) : '\n' ∈ t ↔ laterLines t ≠ [] := by
  constructor
  · intro several empty
    have cut := lines_eq t
    rw [empty] at cut
    have whole : firstLine t = t := by
      have joined := unlines_lines t
      rwa [cut, unlines, join, List.intercalate_singleton] at joined
    exact clean_of_mem_lines (t := t) (by rw [cut]; exact List.mem_singleton_self _) (whole ▸ several)
  · intro later
    by_cases several : '\n' ∈ t
    · exact several
    · exact absurd (laterLines_of_clean several) later

theorem moved_eq_iff {n : Nat} (positive : 0 < n) (ls : List Text) :
    ls.map (spaces n ++ ·) = ls ↔ ls = [] := by
  cases ls with
  | nil => simp
  | cons line rest =>
    refine iff_of_false (fun same => ?_) (List.cons_ne_nil line rest)
    have length := congrArg List.length (List.cons.inj same).1
    simp only [List.length_append, spaces, List.length_replicate] at length
    omega

theorem clean_iff (t : Text) : '\n' ∉ t ↔ laterLines t = [] := by
  rw [several_iff]
  exact Decidable.not_not

theorem hang_eq_iff {n : Nat} (positive : 0 < n) (t : Text) : hang n t = t ↔ '\n' ∉ t := by
  rw [clean_iff, ← moved_eq_iff positive]
  constructor
  · intro same
    have cut := congrArg lines same
    rw [lines_hang, lines_eq t] at cut
    exact (List.cons.inj cut).2
  · intro same
    apply lines_injective
    rw [lines_hang, same, ← lines_eq]

theorem exists_line_of_infix {s t : Text} (clean : '\n' ∉ s) (inside : s <:+: t) :
    ∃ line ∈ lines t, s <:+: line := by
  obtain ⟨before, after, rfl⟩ := inside
  have nonempty : lines before ≠ [] := by simp [lines_eq]
  have cut := lines_append_of_last (List.dropLast_concat_getLast nonempty).symm (s ++ after)
  rw [firstLine_of_lines (lines_append clean after), ← List.append_assoc] at cut
  refine ⟨_, cut ▸ List.mem_append_right _ List.mem_cons_self, ?_⟩
  exact ⟨_, _, List.append_assoc ..⟩

theorem infix_of_indentLine {width : Nat} {line rest : Text} {c : Char} (visible : c ≠ ' ')
    (inside : c :: rest <:+: indentLine width line) : c :: rest <:+: line := by
  unfold indentLine at inside
  split at inside
  · exact inside
  · obtain ⟨before, after, same⟩ := inside
    rw [List.append_assoc] at same
    rcases List.append_eq_append_iff.mp same with ⟨gap, spaced, held⟩ | ⟨gap, -, held⟩
    -- Opened inside the spaces, the part would start with one of them.
    · cases gap with
      | nil => exact ⟨[], after, held⟩
      | cons d gap =>
        obtain ⟨rfl, -⟩ := List.cons.inj held
        have member : c ∈ spaces width := by simp [spaced]
        exact absurd (List.eq_of_mem_replicate member) visible
    · exact ⟨gap, after, by rw [held, List.append_assoc]⟩

theorem infix_of_indent {width : Nat} {t rest : Text} {c : Char} (visible : c ≠ ' ')
    (clean : '\n' ∉ c :: rest) (inside : c :: rest <:+: indent width t) : c :: rest <:+: t := by
  obtain ⟨line, indented, held⟩ := exists_line_of_infix clean inside
  rw [lines_indent] at indented
  obtain ⟨source, member, rfl⟩ := List.mem_map.mp indented
  have part : source <:+: unlines (lines t) := infix_join member
  rw [unlines_lines] at part
  exact (infix_of_indentLine visible held).trans part

end LiteralGrammar.Text
