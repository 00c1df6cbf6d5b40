import LiteralGrammar.Pattern
import LiteralGrammar.Proofs.Text.Runs
import Mathlib.Tactic.IntervalCases

/-!
Reading the source of a pattern. A reader goes over the text once and keeps what stands before each
bracket that is still open; it refuses what no rule is written with. Main statement: the source of
a pattern in the usual form, alternatives of rows of pieces, reads back as the pattern, so that an
escaped character never joins with its neighbours, in a class or outside.
-/
namespace LiteralGrammar.Pattern

inductive Bracket where
  | group
  | notAhead
deriving DecidableEq, Repr

def Bracket.around : Bracket → Pattern → Pattern
  | group => .group
  | notAhead => .notAhead

/-- What stands between two brackets: the alternatives that are over, and the pieces of the one that
is not, the newest first. -/
structure Level where
  earlier : List Pattern
  pieces : List Pattern
deriving DecidableEq, Repr

def isRepeated : Pattern → Bool
  | star _ | plus _ => true
  | _ => false

namespace Level

def start : Level := ⟨[], []⟩

def last (l : Level) : Pattern := inOrder l.pieces.reverse

def pattern (l : Level) : Pattern := anyOf (l.last :: l.earlier).reverse

def push (l : Level) (p : Pattern) : Level := { l with pieces := p :: l.pieces }

def bar (l : Level) : Level := ⟨l.last :: l.earlier, []⟩

def repeat? (l : Level) (f : Pattern → Pattern) : Option Level :=
  match l.pieces with
  | [] => none
  | p :: before => if p.isRepeated then none else some { l with pieces := f p :: before }

end Level

def otherMarks : List Char := ['.', '^', '$', '?', '{']

def classMarks : List Char := ['[', '^', '-']

mutual

/-- A backslash before a character that is no letter or digit takes its meaning away. -/
def read (now : Level) (outer : List (Bracket × Level)) : Text → Option Pattern
  | [] => if outer = [] then some now.pattern else none
  | '\\' :: 's' :: rest => read (now.push blank) outer rest
  | '\\' :: c :: rest =>
    if c.isDigit then
      -- With a second digit it would be the number of another group.
      if c = '0' ∨ rest.head?.any Char.isDigit then none
      else read (now.push (sameAs (c.toNat - '0'.toNat))) outer rest
    else if c.isAlpha then none
    else read (now.push (char c)) outer rest
  | '[' :: rest => readClass now outer [] rest
  | '(' :: '?' :: '!' :: rest => read .start ((.notAhead, now) :: outer) rest
  | '(' :: rest => read .start ((.group, now) :: outer) rest
  | ')' :: rest =>
    match outer with
    | [] => none
    | (bracket, before) :: outer => read (before.push (bracket.around now.pattern)) outer rest
  | '|' :: rest => read now.bar outer rest
  | '*' :: rest =>
    match now.repeat? star with
    | none => none
    | some now => read now outer rest
  | '+' :: rest =>
    match now.repeat? plus with
    | none => none
    | some now => read now outer rest
  | c :: rest => if c ∈ otherMarks then none else read (now.push (char c)) outer rest

def readClass (now : Level) (outer : List (Bracket × Level)) (held : List Char) :
    Text → Option Pattern
  | [] => none
  | ']' :: rest => if held = [] then none else read (now.push (oneOf held.reverse)) outer rest
  | '\\' :: c :: rest => if c.isAlphanum then none else readClass now outer (c :: held) rest
  | c :: rest => if c ∈ classMarks then none else readClass now outer (c :: held) rest

end

def ofSource? (t : Text) : Option Pattern := read .start [] t

section

variable (now : Level) (outer : List (Bracket × Level))

theorem read_escapeChar (c : Char) (rest : Text) :
    read now outer (escapeChar c ++ rest) = read (now.push (char c)) outer rest := by
  by_cases special : c ∈ specials
  · have marks : specials.all (fun c => c ≠ 's' && !c.isDigit && !c.isAlpha) = true := by decide
    have mark := List.all_eq_true.mp marks c special
    simp only [Bool.and_eq_true, decide_eq_true_eq, Bool.not_eq_true'] at mark
    rw [escapeChar, if_pos special]
    simp [read, mark]
  · have others : ∀ d ∈ specials, c ≠ d := fun d member same => special (same ▸ member)
    simp only [specials, List.forall_mem_cons] at others
    rw [escapeChar, if_neg special]
    simp [read, otherMarks, others]

theorem readClass_escape (held cs : List Char) (rest : Text) :
    readClass now outer held (escape cs ++ rest) = readClass now outer (cs.reverse ++ held) rest := by
  induction cs generalizing held with
  | nil => rfl
  | cons c cs ih =>
    have one : readClass now outer held (escapeChar c ++ (escape cs ++ rest)) =
        readClass now outer (c :: held) (escape cs ++ rest) := by
      by_cases special : c ∈ specials
      · have marks : specials.all (fun c => !c.isAlphanum) = true := by decide
        have mark := List.all_eq_true.mp marks c special
        rw [Bool.not_eq_true'] at mark
        rw [escapeChar, if_pos special]
        simp [readClass, mark]
      · have others : ∀ d ∈ specials, c ≠ d := fun d member same => special (same ▸ member)
        simp only [specials, List.forall_mem_cons] at others
        rw [escapeChar, if_neg special]
        simp [readClass, classMarks, others]
    rw [escape, List.flatMap_cons, List.append_assoc]
    exact one.trans ((ih (c :: held)).trans (by simp))

theorem read_oneOf {cs : List Char} (nonempty : cs ≠ []) (rest : Text) :
    read now outer ((oneOf cs).source ++ rest) = read (now.push (oneOf cs)) outer rest := by
  have cut : (oneOf cs).source ++ rest = '[' :: (escape cs ++ ']' :: rest) := by simp [source]
  rw [cut, read, readClass_escape]
  simp [readClass, nonempty]

theorem read_sameAs {n : Nat} (low : 1 ≤ n) (high : n ≤ 9) {rest : Text}
    (stops : Text.Stops (Char.isDigit ·) rest) :
    read now outer ((sameAs n).source ++ rest) = read (now.push (sameAs n)) outer rest := by
  have ends : rest.head?.any Char.isDigit = false := by
    rw [Option.any_eq_false]
    exact fun c head => by simpa using stops c head
  have digit : Text.ofNat n = [n.digitChar] := Nat.toDigits_of_lt_base (by omega)
  rw [source, digit]
  interval_cases n <;> simp [Nat.digitChar, read, ends]

theorem read_repeated {p : Pattern} (once : p.isRepeated = false) (rest : Text) :
    read (now.push p) outer ('*' :: rest) = read (now.push (star p)) outer rest ∧
      read (now.push p) outer ('+' :: rest) = read (now.push (plus p)) outer rest := by
  simp [read, Level.repeat?, Level.push, once]

end

inductive Grade where
  | atom
  | piece
  | row
  | branch
  | whole

inductive Formed : Grade → Pattern → Prop where
  | char (c : Char) : Formed .atom (.char c)
  | blank : Formed .atom .blank
  | oneOf {cs : List Char} : cs ≠ [] → Formed .atom (.oneOf cs)
  | group {p : Pattern} : Formed .whole p → Formed .atom (.group p)
  | notAhead {p : Pattern} : Formed .whole p → Formed .atom (.notAhead p)
  | once {p : Pattern} : Formed .atom p → Formed .piece p
  | star {p : Pattern} : Formed .atom p → Formed .piece (.star p)
  | plus {p : Pattern} : Formed .atom p → Formed .piece (.plus p)
  | last {p : Pattern} : Formed .piece p → Formed .row p
  | seq {p q : Pattern} : Formed .piece p → Formed .row q → Formed .row (.seq p q)
  | empty : Formed .branch .empty
  | filled {p : Pattern} : Formed .row p → Formed .branch p
  | reference {n : Nat} : 1 ≤ n → n ≤ 9 → Formed .whole (.sameAs n)
  | single {p : Pattern} : Formed .branch p → Formed .whole p
  | alt {p q : Pattern} : Formed .branch p → Formed .whole q → Formed .whole (.alt p q)

/-- What reading the source of a pattern does to the level: a piece is put on it, and so are the
pieces of a row; alternatives end on a level whose last one is still open. -/
def ReadsBack : Grade → Pattern → Prop
  | .atom, p | .piece, p => ∀ now outer rest,
      read now outer (p.source ++ rest) = read (now.push p) outer rest
  | .row, p => ∃ ps, ps ≠ [] ∧ inOrder ps = p ∧ ∀ now outer rest,
      read now outer (p.source ++ rest) = read ⟨now.earlier, ps.reverse ++ now.pieces⟩ outer rest
  | .branch, p => ∃ ps, inOrder ps = p ∧ ∀ now outer rest,
      read now outer (p.source ++ rest) = read ⟨now.earlier, ps.reverse ++ now.pieces⟩ outer rest
  | .whole, p => ∃ ps, ps ≠ [] ∧ anyOf ps = p ∧
      ∀ earlier outer rest, Text.Stops (Char.isDigit ·) rest →
        ∃ l : Level, read ⟨earlier, []⟩ outer (p.source ++ rest) = read l outer rest ∧
          l.last :: l.earlier = ps.reverse ++ earlier

theorem isRepeated_of_atom {p : Pattern} (atom : Formed .atom p) : p.isRepeated = false := by
  cases atom <;> rfl

theorem read_around (bracket : Bracket) {p : Pattern} (whole : ReadsBack .whole p) (now : Level)
    (outer : List (Bracket × Level)) (rest : Text) :
    read .start ((bracket, now) :: outer) (p.source ++ ')' :: rest) =
      read (now.push (bracket.around p)) outer rest := by
  obtain ⟨ps, -, same, reads⟩ := whole
  obtain ⟨l, read_l, kept⟩ := reads [] ((bracket, now) :: outer) (')' :: rest) (by simp [Text.Stops])
  rw [Level.start, read_l, read, Level.pattern, kept, List.append_nil, List.reverse_reverse, same]

/-- No source starts with a question mark, which would change the bracket before it. -/
theorem stops_source {grade : Grade} {p : Pattern} (formed : Formed grade p) {rest : Text}
    (stops : Text.Stops (· = '?') rest) : Text.Stops (· = '?') (p.source ++ rest) := by
  induction formed generalizing rest with
  | char c =>
    by_cases special : c ∈ specials
    · simp [source, escapeChar, special, Text.Stops]
    · have other : c ≠ '?' := fun same => special (same ▸ by decide)
      simp [source, escapeChar, special, Text.Stops, other]
  | blank | oneOf _ | group _ _ | notAhead _ _ | reference _ _ => simp [source, Text.Stops]
  | once _ ih | last _ ih | filled _ ih | single _ ih => exact ih stops
  | star _ ih | plus _ ih =>
    rw [source, List.append_assoc]
    exact ih (by simp [Text.Stops])
  | seq _ _ first later =>
    rw [source, List.append_assoc]
    exact first (later stops)
  | empty => exact stops
  | alt _ _ first _ =>
    rw [source, List.append_assoc, List.append_assoc]
    exact first (by simp [Text.Stops])

theorem read_group {t : Text} (stops : Text.Stops (· = '?') t) (now : Level)
    (outer : List (Bracket × Level)) :
    read now outer ('(' :: t) = read .start ((.group, now) :: outer) t := by
  cases t with
  | nil => rfl
  | cons c rest =>
    have other : c ≠ '?' := stops c rfl
    simp [read, other]

theorem readsBack_of_formed {grade : Grade} {p : Pattern} (formed : Formed grade p) :
    ReadsBack grade p := by
  induction formed with
  | char c => exact fun now outer rest => read_escapeChar now outer c rest
  | blank => exact fun now outer rest => by simp [source, read]
  | oneOf nonempty => exact fun now outer rest => read_oneOf now outer nonempty rest
  | @group p whole ih =>
    intro now outer rest
    have cut : (group p).source ++ rest = '(' :: (p.source ++ ')' :: rest) := by simp [source]
    rw [cut, read_group (stops_source whole (by simp [Text.Stops]))]
    exact read_around .group ih now outer rest
  | @notAhead p _ ih =>
    intro now outer rest
    have cut : (notAhead p).source ++ rest = '(' :: '?' :: '!' :: (p.source ++ ')' :: rest) := by
      simp [source]
    rw [cut, read]
    exact read_around .notAhead ih now outer rest
  | once _ ih => exact ih
  | star atom ih =>
    intro now outer rest
    rw [source, List.append_assoc, ih]
    exact (read_repeated now outer (isRepeated_of_atom atom) rest).1
  | plus atom ih =>
    intro now outer rest
    rw [source, List.append_assoc, ih]
    exact (read_repeated now outer (isRepeated_of_atom atom) rest).2
  | @last p _ ih => exact ⟨[p], by simp, rfl, fun now outer rest => ih now outer rest⟩
  | @seq p q _ _ first later =>
    obtain ⟨ps, nonempty, same, reads⟩ := later
    obtain ⟨q', ps, rfl⟩ := List.exists_cons_of_ne_nil nonempty
    refine ⟨p :: q' :: ps, by simp, by rw [inOrder, same]; simp, ?_⟩
    intro now outer rest
    rw [source, List.append_assoc, first, reads]
    simp [Level.push]
  | empty => exact ⟨[], rfl, fun now outer rest => rfl⟩
  | filled _ ih =>
    obtain ⟨ps, -, reads⟩ := ih
    exact ⟨ps, reads⟩
  | @reference n low high =>
    refine ⟨[sameAs n], by simp, rfl, fun earlier outer rest stops => ?_⟩
    exact ⟨_, read_sameAs ⟨earlier, []⟩ outer low high stops, rfl⟩
  | @single p _ ih =>
    obtain ⟨ps, same, reads⟩ := ih
    refine ⟨[p], by simp, rfl, fun earlier outer rest _ => ⟨_, reads _ _ _, ?_⟩⟩
    simp [Level.last, same]
  | @alt p q _ _ first later =>
    obtain ⟨ps, same, reads⟩ := first
    obtain ⟨qs, nonempty, same', reads'⟩ := later
    obtain ⟨q', qs, rfl⟩ := List.exists_cons_of_ne_nil nonempty
    refine ⟨p :: q' :: qs, by simp, by rw [anyOf, same']; simp, fun earlier outer rest stops => ?_⟩
    obtain ⟨l, read_l, kept⟩ := reads' (p :: earlier) outer rest stops
    refine ⟨l, ?_, by simp [kept]⟩
    have cut : (alt p q).source ++ rest = p.source ++ '|' :: (q.source ++ rest) := by simp [source]
    rw [cut, reads, read, ← read_l]
    simp [Level.bar, Level.last, same]

theorem ofSource?_source {p : Pattern} (formed : Formed .whole p) : ofSource? p.source = some p := by
  obtain ⟨ps, -, same, reads⟩ := readsBack_of_formed formed
  obtain ⟨l, read_l, kept⟩ := reads [] [] [] (by simp [Text.Stops])
  rw [List.append_nil] at read_l
  rw [ofSource?, Level.start, read_l, read, if_pos rfl, Level.pattern, kept]
  simp [same]

theorem source_anyOf (ps : List Pattern) :
    (anyOf ps).source = Text.join "|" (ps.map source) := by
  fun_induction anyOf ps with
  | case1 => rfl
  | case2 p => simp [Text.join]
  | case3 p rest several ih =>
    have later : rest.map source ≠ [] := by simpa using several
    rw [source, ih, List.map_cons, Text.join, Text.join, List.intercalate_cons_of_ne_nil later]

theorem formed_literal (t : Text) : Formed .branch (literal t) := by
  have row : ∀ c t, Formed .row (literal (c :: t)) := by
    intro c t
    induction t generalizing c with
    | nil => exact .last (.once (.char c))
    | cons d t ih => exact .seq (.once (.char c)) (ih d)
  cases t with
  | nil => exact .empty
  | cons c t => exact .filled (row c t)

theorem formed_anyOf {ps : List Pattern} (each : ∀ p ∈ ps, Formed .branch p) :
    Formed .whole (anyOf ps) := by
  fun_induction anyOf ps with
  | case1 => exact .single .empty
  | case2 p => exact .single (each p (List.mem_singleton_self p))
  | case3 p rest several ih =>
    obtain ⟨first, each⟩ := List.forall_mem_cons.mp each
    exact .alt first (ih each)

end LiteralGrammar.Pattern
