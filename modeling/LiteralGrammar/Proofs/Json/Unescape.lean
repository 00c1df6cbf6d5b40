import LiteralGrammar.Json.Quoted

/-!
Reading JSON strings back: a backslash with a letter, or with `u` and four hexadecimal digits, is
the code that it stands for, and a high surrogate with a low one behind it is one character.
-/
namespace LiteralGrammar.Json

def letters : Text := ['"', '\\', '/', 'b', 'f', 'n', 'r', 't']

def ofLetter (l : Char) : Char :=
  if l = 'b' then '\x08'
  else if l = 'f' then '\x0C'
  else if l = 'n' then '\n'
  else if l = 'r' then '\r'
  else if l = 't' then '\t'
  else l

def hexDigit (c : Char) : Nat := if c.isDigit then c.toNat - 0x30 else c.toLower.toNat - 0x57

def ofHex (digits : Text) : Nat := digits.foldl (fun n d => 16 * n + hexDigit d) 0

/-- Code points, and the surrogates that only escapes can spell. -/
def codes : Text → List Nat
  | [] => []
  | '\\' :: 'u' :: a :: b :: c :: d :: rest => ofHex [a, b, c, d] :: codes rest
  | '\\' :: l :: rest => (ofLetter l).toNat :: codes rest
  | c :: rest => c.toNat :: codes rest

def ofCodes : List Nat → Text
  | [] => []
  | [n] => [Char.ofNat n]
  | high :: low :: rest =>
    if (0xD800 ≤ high ∧ high < 0xDC00) ∧ 0xDC00 ≤ low ∧ low < 0xE000 then
      Char.ofNat (0x10000 + 0x400 * (high - 0xD800) + (low - 0xDC00)) :: ofCodes rest
    else Char.ofNat high :: ofCodes (low :: rest)

def unescape (t : Text) : Text := ofCodes (codes t)

def unquoted (t : Text) : Text := unescape t.tail.dropLast

theorem letter?_eq_some {c l : Char} (h : letter? c = some l) : l ∈ letters ∧ ofLetter l = c := by
  unfold letter? at h
  split at h
  case isTrue either => cases h; rcases either with rfl | rfl <;> decide
  split at h
  case isTrue same => cases h; subst same; decide
  split at h
  case isTrue same => cases h; subst same; decide
  split at h
  case isTrue same => cases h; subst same; decide
  split at h
  case isTrue same => cases h; subst same; decide
  split at h
  case isTrue same => cases h; subst same; decide
  cases h

theorem ne_u_of_mem_letters {l : Char} (inside : l ∈ letters) : l ≠ 'u' := by
  intro same
  rw [same] at inside
  exact absurd inside (by decide)

theorem not_special_of_letter? {c : Char} (none : letter? c = none) : c ≠ '"' ∧ c ≠ '\\' := by
  constructor <;> intro same <;> subst same <;> exact absurd none (by decide)

theorem ofNatHex_control :
    ∀ n < 0x20, Text.ofNatHex 4 n = ['0', '0', (n / 16).digitChar, (n % 16).digitChar] := by
  decide

theorem ofHex_control :
    ∀ n < 0x20, ofHex ['0', '0', (n / 16).digitChar, (n % 16).digitChar] = n := by
  decide

theorem escapeChar_cases (c : Char) :
    (∃ l ∈ letters, ofLetter l = c ∧ escapeChar c = ['\\', l]) ∨
      (c.toNat < 0x20 ∧ escapeChar c =
        ['\\', 'u', '0', '0', (c.toNat / 16).digitChar, (c.toNat % 16).digitChar]) ∨
      (c ≠ '"' ∧ c ≠ '\\' ∧ ¬c.toNat < 0x20 ∧ escapeChar c = [c]) := by
  unfold escapeChar
  cases found : letter? c with
  | some l =>
    obtain ⟨inside, same⟩ := letter?_eq_some found
    exact .inl ⟨l, inside, same, rfl⟩
  | none =>
    obtain ⟨unquoted, unescaped⟩ := not_special_of_letter? found
    by_cases control : c.toNat < 0x20
    · refine .inr (.inl ⟨control, ?_⟩)
      simp only [if_pos control, ofNatHex_control _ control]
      rfl
    · exact .inr (.inr ⟨unquoted, unescaped, control, if_neg control⟩)

theorem codes_letter {l : Char} (other : l ≠ 'u') (rest : Text) :
    codes ('\\' :: l :: rest) = (ofLetter l).toNat :: codes rest := by
  rw [codes]
  intro _ _ _ _ _ same
  exact absurd same other

theorem codes_plain {c : Char} (other : c ≠ '\\') (rest : Text) :
    codes (c :: rest) = c.toNat :: codes rest := by
  rw [codes]
  · intro _ _ _ _ _ same
    exact absurd same other
  · intro _ _ same
    exact absurd same other

theorem codes_escapeChar (c : Char) (rest : Text) :
    codes (escapeChar c ++ rest) = c.toNat :: codes rest := by
  rcases escapeChar_cases c with ⟨l, inside, same, written⟩ | ⟨control, written⟩ |
    ⟨-, unescaped, -, written⟩ <;> rw [written]
  · change codes ('\\' :: l :: rest) = _
    rw [codes_letter (ne_u_of_mem_letters inside), same]
  · change codes ('\\' :: 'u' :: '0' :: '0' :: _ :: _ :: rest) = _
    rw [codes, ofHex_control _ control]
  · exact codes_plain unescaped rest

theorem codes_flatMap_escapeChar (t : Text) : codes (t.flatMap escapeChar) = t.map Char.toNat := by
  induction t with
  | nil => rfl
  | cons c t ih => rw [List.flatMap_cons, codes_escapeChar, ih, List.map_cons]

theorem ofCodes_map_toNat (t : Text) : ofCodes (t.map Char.toNat) = t := by
  induction t with
  | nil => rfl
  | cons c t ih =>
    cases t with
    | nil => rw [List.map_cons, List.map_nil, ofCodes, Char.ofNat_toNat]
    | cons d t =>
      have valid : c.toNat < 0xD800 ∨ 0xDFFF < c.toNat ∧ c.toNat < 0x110000 := c.valid
      rw [List.map_cons] at ih
      rw [List.map_cons, List.map_cons, ofCodes, if_neg (by omega), ih, Char.ofNat_toNat]

theorem unescape_flatMap_escapeChar (t : Text) : unescape (t.flatMap escapeChar) = t := by
  rw [unescape, codes_flatMap_escapeChar, ofCodes_map_toNat]

theorem unquoted_quoted (t : Text) : unquoted (quoted t) = t := by
  unfold unquoted quoted
  rw [List.cons_append, List.tail_cons, List.dropLast_concat, unescape_flatMap_escapeChar]

/-- No character is written like the beginning of what another one is written as. -/
theorem escapeChar_cut {c d : Char} {s t : Text} (same : escapeChar c ++ s = escapeChar d ++ t) :
    c = d ∧ s = t := by
  have read := congrArg codes same
  rw [codes_escapeChar, codes_escapeChar] at read
  obtain rfl := Char.toNat_inj.mp (List.cons.inj read).1
  exact ⟨rfl, List.append_cancel_left same⟩

theorem escapeChar_append_ne_quote (c : Char) (s t : Text) : escapeChar c ++ s ≠ '"' :: t := by
  rcases escapeChar_cases c with ⟨l, -, -, written⟩ | ⟨-, written⟩ | ⟨unquoted, -, -, written⟩ <;>
    rw [written]
  · simp
  · simp
  · simp [unquoted]

theorem clean_escapeChar (c : Char) : '\n' ∉ escapeChar c := by
  rcases escapeChar_cases c with ⟨l, inside, -, written⟩ | ⟨control, written⟩ |
    ⟨-, -, printed, written⟩ <;> rw [written]
  · have letter : '\n' ≠ l := by
      intro same
      rw [← same] at inside
      exact absurd inside (by decide)
    simp [letter]
  · have digits : ∀ n < 0x20, '\n' ≠ (n / 16).digitChar ∧ '\n' ≠ (n % 16).digitChar := by decide
    simp [digits _ control]
  · have visible : '\n' ≠ c := fun same => printed (same ▸ by decide)
    simp [visible]

theorem clean_quoted (t : Text) : '\n' ∉ quoted t := by
  simp [quoted, clean_escapeChar]

end LiteralGrammar.Json
