import LiteralGrammar.Json.Object
import LiteralGrammar.Proofs.Json.Unescape
import LiteralGrammar.Proofs.Text.Ascii
import LiteralGrammar.Proofs.Text.Decimal
import LiteralGrammar.Proofs.Text.Runs
import LiteralGrammar.Proofs.Text.Words

/-!
Reading flat JSON objects back. A reader takes what it reads off the front, and returns it with what
stands behind. White space may stand around every token. Refused are, as in all of JSON, unescaped
control characters, unknown escapes, surrogates outside a pair, leading zeros and commas without a
member behind them, and in addition the values that are neither strings nor natural numbers.
-/
namespace LiteralGrammar.Json

def isSpace (c : Char) : Bool := c = ' ' || c = '\t' || c = '\n' || c = '\r'

def skip (t : Text) : Text := t.dropWhile isSpace

def isHex (c : Char) : Bool := c.isDigit || 'a' ≤ c.toLower && c.toLower ≤ 'f'

def body? : Text → Option (List Nat × Text)
  | [] => none
  | '"' :: rest => some ([], rest)
  | '\\' :: 'u' :: a :: b :: c :: d :: rest =>
    if [a, b, c, d].all isHex then (body? rest).map (Prod.map (ofHex [a, b, c, d] :: ·) id)
    else none
  | '\\' :: l :: rest =>
    if l ∈ letters then (body? rest).map (Prod.map ((ofLetter l).toNat :: ·) id) else none
  | c :: rest =>
    if c = '\\' ∨ c.toNat < 0x20 then none else (body? rest).map (Prod.map (c.toNat :: ·) id)

/-- A high surrogate with a low one behind it is one character, and any other surrogate is none. -/
def ofCodes? : List Nat → Option Text
  | [] => some []
  | n :: rest =>
    if n < 0xD800 ∨ 0xDFFF < n then (ofCodes? rest).map (Char.ofNat n :: ·)
    else match rest with
      | [] => none
      | low :: rest =>
        if n < 0xDC00 ∧ 0xDC00 ≤ low ∧ low < 0xE000 then
          (ofCodes? rest).map (Char.ofNat (0x10000 + 0x400 * (n - 0xD800) + (low - 0xDC00)) :: ·)
        else none

def string? : Text → Option (Text × Text)
  | '"' :: t => do
    let (codes, t) ← body? t
    let read ← ofCodes? codes
    return (read, t)
  | _ => none

def number? (t : Text) : Option (Nat × Text) :=
  let digits := t.takeWhile Char.isDigit
  if digits = [] ∨ digits.head? = some '0' ∧ digits ≠ ['0'] then none
  else some (Nat.ofDigitChars 10 digits 0, t.dropWhile Char.isDigit)

def atom? (t : Text) : Option (Atom × Text) :=
  (string? t).map (Prod.map .text id) <|> (number? t).map (Prod.map .number id)

def member? (t : Text) : Option ((Text × Atom) × Text) := do
  let (name, t) ← string? (skip t)
  match skip t with
  | ':' :: t =>
    let (value, t) ← atom? (skip t)
    return ((name, value), skip t)
  | _ => none

def members? : Nat → Text → Option (Object × Text)
  | 0, _ => none
  | most + 1, t => do
    let (m, t) ← member? t
    match t with
    | '}' :: t => return ([m], t)
    | ',' :: t =>
      let (members, t) ← members? most t
      return (m :: members, t)
    | _ => none

def Object.read? (t : Text) : Option Object :=
  match skip t with
  | '{' :: t =>
    match skip t with
    | '}' :: t => if skip t = [] then some [] else none
    | t => do
      let (members, t) ← members? t.length t
      if skip t = [] then return members else none
  | _ => none

theorem skip_visible {c : Char} (visible : isSpace c = false) (t : Text) :
    skip (c :: t) = c :: t := by
  simp [skip, visible]

theorem body?_letter {l : Char} (inside : l ∈ letters) (rest : Text) :
    body? ('\\' :: l :: rest) = (body? rest).map (Prod.map ((ofLetter l).toNat :: ·) id) := by
  rw [body?, if_pos inside]
  intro _ _ _ _ _ same
  exact absurd same (ne_u_of_mem_letters inside)

theorem body?_plain {c : Char} (unquoted : c ≠ '"') (unescaped : c ≠ '\\')
    (printed : ¬c.toNat < 0x20) (rest : Text) :
    body? (c :: rest) = (body? rest).map (Prod.map (c.toNat :: ·) id) := by
  rw [body?, if_neg (by simp [unescaped, printed])]
  · intro same
    exact absurd same unquoted
  · intro _ _ _ _ _ same
    exact absurd same unescaped
  · intro _ _ same
    exact absurd same unescaped

theorem isHex_control : ∀ n < 0x20, [(n / 16).digitChar, (n % 16).digitChar].all isHex := by
  decide

theorem body?_escapeChar (c : Char) (rest : Text) :
    body? (escapeChar c ++ rest) = (body? rest).map (Prod.map (c.toNat :: ·) id) := by
  rcases escapeChar_cases c with ⟨l, inside, same, written⟩ | ⟨control, written⟩ |
    ⟨unquoted, unescaped, printed, written⟩ <;> rw [written]
  · change body? ('\\' :: l :: rest) = _
    rw [body?_letter inside, same]
  · change body? ('\\' :: 'u' :: '0' :: '0' :: _ :: _ :: rest) = _
    rw [body?, if_pos, ofHex_control _ control]
    exact isHex_control _ control
  · exact body?_plain unquoted unescaped printed rest

theorem body?_flatMap_escapeChar (t rest : Text) :
    body? (t.flatMap escapeChar ++ '"' :: rest) = some (t.map Char.toNat, rest) := by
  induction t with
  | nil => rfl
  | cons c t ih => rw [List.flatMap_cons, List.append_assoc, body?_escapeChar, ih]; rfl

theorem ofCodes?_plain {n : Nat} (plain : n < 0xD800 ∨ 0xDFFF < n) (rest : List Nat) :
    ofCodes? (n :: rest) = (ofCodes? rest).map (Char.ofNat n :: ·) := by
  rw [ofCodes?.eq_def]
  exact if_pos plain

theorem ofCodes?_map_toNat (t : Text) : ofCodes? (t.map Char.toNat) = some t := by
  induction t with
  | nil => rfl
  | cons c t ih =>
    have valid : c.toNat < 0xD800 ∨ 0xDFFF < c.toNat ∧ c.toNat < 0x110000 := c.valid
    rw [List.map_cons, ofCodes?_plain (by omega), ih, Char.ofNat_toNat]
    rfl

theorem string?_quoted (t rest : Text) : string? (quoted t ++ rest) = some (t, rest) := by
  have written : quoted t ++ rest = '"' :: (t.flatMap escapeChar ++ '"' :: rest) := by simp [quoted]
  rw [written, string?, body?_flatMap_escapeChar]
  simp [ofCodes?_map_toNat]

theorem string?_digit {d : Char} (digit : d.isDigit = true) (t : Text) :
    string? (d :: t) = none := by
  rw [string?]
  rintro _ same
  rw [(List.cons.inj same).1] at digit
  exact absurd digit (by decide)

theorem number?_ofNat (n : Nat) {rest : Text} (ends : Text.Stops (Char.isDigit ·) rest) :
    number? (Text.ofNat n ++ rest) = some (n, rest) := by
  have digits : ∀ c ∈ Text.ofNat n, c.isDigit = true := fun _ => Text.isDigit_of_mem_ofNat
  obtain ⟨taken, dropped⟩ := Text.takeWhile_run digits ends
  have canonical :
      ¬(Text.ofNat n = [] ∨ (Text.ofNat n).head? = some '0' ∧ Text.ofNat n ≠ ['0']) := by
    rintro (empty | ⟨first, longer⟩)
    · exact Text.ofNat_ne_nil n empty
    · obtain ⟨rest, written⟩ := List.head?_eq_some_iff.mp first
      exact longer (by rw [Text.eq_zero_of_ofNat_eq written]; rfl)
  simp only [number?, taken, dropped]
  rw [if_neg canonical, Text.ofNat, Nat.ofDigitChars_ten_toDigits]

theorem atom?_write (value : Atom) {rest : Text} (ends : Text.Stops (Char.isDigit ·) rest) :
    atom? (value.write ++ rest) = some (value, rest) := by
  cases value with
  | text t => simp [atom?, Atom.write, string?_quoted]
  | number n =>
    obtain ⟨d, behind, written, digit⟩ := Text.head_ofNat n
    have unquoted : string? (Text.ofNat n ++ rest) = none := by
      rw [written]
      exact string?_digit digit _
    simp [atom?, Atom.write, unquoted, number?_ofNat n ends]

def writeMember (m : Text × Atom) : Text := quoted m.1 ++ ": " ++ m.2.write

theorem Object.write_eq (members : Object) :
    Object.write members = '{' :: Text.join ", " (members.map writeMember) ++ ['}'] := rfl

theorem skip_quoted (t rest : Text) : skip (quoted t ++ rest) = quoted t ++ rest :=
  skip_visible (by decide) _

theorem skip_write (value : Atom) (rest : Text) :
    skip (value.write ++ rest) = value.write ++ rest := by
  cases value with
  | text t => exact skip_quoted t rest
  | number n =>
    obtain ⟨d, behind, written, digit⟩ := Text.head_ofNat n
    have visible : isSpace d = false := by
      have := Text.toNat_of_isDigit digit
      refine Bool.eq_false_iff.mpr fun space => ?_
      simp only [isSpace, Bool.or_eq_true, decide_eq_true_eq] at space
      rcases space with ((rfl | rfl) | rfl) | rfl <;> simp at this
    rw [Atom.write, written]
    exact skip_visible visible _

theorem member?_write (m : Text × Atom) {rest : Text} (ends : Text.Stops (Char.isDigit ·) rest) :
    member? (writeMember m ++ rest) = some (m, skip rest) := by
  have written : writeMember m ++ rest = quoted m.1 ++ (':' :: ' ' :: (m.2.write ++ rest)) := by
    simp [writeMember]
  have colon (t : Text) : skip (':' :: t) = ':' :: t := skip_visible (by decide) t
  have space : skip (' ' :: (m.2.write ++ rest)) = m.2.write ++ rest := skip_write m.2 rest
  simp [member?, written, skip_quoted, string?_quoted, colon, space, atom?_write m.2 ends]

theorem members?_space (most : Nat) (t : Text) : members? most (' ' :: t) = members? most t := by
  cases most <;> rfl

theorem members?_write (m : Text × Atom) (later : Object) {most : Nat}
    (enough : later.length < most) (rest : Text) :
    members? most (Text.join ", " ((m :: later).map writeMember) ++ '}' :: rest)
      = some (m :: later, rest) := by
  obtain ⟨most, rfl⟩ : ∃ n, most = n + 1 := ⟨most - 1, by omega⟩
  induction later generalizing m most with
  | nil =>
    have read : member? (writeMember m ++ '}' :: rest) = some (m, skip ('}' :: rest)) :=
      member?_write m (by simp [Text.Stops])
    have brace : skip ('}' :: rest) = '}' :: rest := skip_visible (by decide) rest
    simp [Text.join, members?, read, brace]
  | cons next later ih =>
    rw [List.length_cons] at enough
    obtain ⟨most, rfl⟩ : ∃ n, most = n + 1 := ⟨most - 1, by omega⟩
    have reads := (members?_space _ _).trans (ih next most (by omega))
    have cut (rest : Text) : Text.join ", " ((m :: next :: later).map writeMember) ++ rest
        = writeMember m
          ++ ',' :: ' ' :: (Text.join ", " ((next :: later).map writeMember) ++ rest) := by
      simp [Text.join, List.intercalate_cons_cons]
    rw [cut]
    generalize Text.join ", " ((next :: later).map writeMember) ++ '}' :: rest = behind at reads ⊢
    have comma : skip (',' :: ' ' :: behind) = ',' :: ' ' :: behind := skip_visible (by decide) _
    have read :
        member? (writeMember m ++ ',' :: ' ' :: behind) = some (m, ',' :: ' ' :: behind) := by
      rw [member?_write m (by simp [Text.Stops]), comma]
    rw [members?, read]
    simp [reads]

theorem Object.read?_write (members : Object) : Object.read? members.write = some members := by
  cases members with
  | nil => rfl
  | cons m later =>
    have enough :
        later.length < (Text.join ", " ((m :: later).map writeMember) ++ ['}']).length := by
      have each := @Text.length_le_length_join ", " (by decide) (writeMember m)
        (later.map writeMember)
      rw [List.length_map] at each
      rw [List.length_append, List.map_cons]
      exact Nat.lt_succ_of_le each
    have reads := members?_write m later enough []
    obtain ⟨behind, starts⟩ : ∃ behind,
        Text.join ", " ((m :: later).map writeMember) ++ ['}'] = '"' :: behind := by
      rw [List.map_cons, Text.join_cons]
      exact ⟨_, rfl⟩
    rw [starts] at reads
    have quote : skip ('"' :: behind) = '"' :: behind := skip_visible (by decide) _
    rw [write_eq, List.cons_append, starts, read?, skip_visible (by decide)]
    simp only [quote]
    split
    case h_1 closed => exact absurd (List.cons.inj closed).1 (by decide)
    case h_2 => rw [reads]; rfl

/-- A pair of surrogates, white space of other kinds, and a zero in front. -/
example :
    Object.read? "\x7b\"name\" :\t\"\\ud83d\\ude00\",\n\"size\":7\x7d"
        = some [(("name" : Text), .text "😀"), (("size" : Text), .number 7)] ∧
      Object.read? "\x7b\"size\": 07\x7d" = none := by
  decide +kernel

theorem Object.write_inj {a b : Object} : a.write = b.write ↔ a = b := by
  constructor
  · intro same
    have read := congrArg read? same
    rw [read?_write, read?_write] at read
    exact Option.some.inj read
  · exact congrArg write

theorem clean_ofNat (n : Nat) : '\n' ∉ Text.ofNat n := fun inside =>
  absurd (Text.isDigit_of_mem_ofNat inside) (by decide)

theorem Object.clean_write (members : Object) : '\n' ∉ members.write := by
  have each : ∀ m : Text × Atom, '\n' ∉ writeMember m := by
    rintro ⟨name, value⟩
    cases value <;> simp [writeMember, Atom.write, clean_quoted, clean_ofNat]
  have joined : '\n' ∉ Text.join ", " (members.map writeMember) :=
    (Text.clean_join (by decide) _).mpr (List.forall_mem_map.mpr fun m _ => each m)
  rw [write_eq, List.mem_append, List.mem_cons]
  rintro ((opening | inside) | closing)
  · exact absurd opening (by decide)
  · exact joined inside
  · exact absurd closing (by decide)

end LiteralGrammar.Json
