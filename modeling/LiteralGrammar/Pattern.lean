import LiteralGrammar.Text.Basic

/-!
Regular expressions of the kind that rules are made of, and their source text. Groups are numbered
by their opening parentheses, from one.
-/
namespace LiteralGrammar

inductive Pattern where
  | empty
  | char (c : Char)
  | blank
  | oneOf (cs : List Char)
  | star (p : Pattern)
  | plus (p : Pattern)
  | seq (p q : Pattern)
  | alt (p q : Pattern)
  | group (p : Pattern)
  | sameAs (group : Nat)
  | notAhead (p : Pattern)
deriving DecidableEq, Repr

namespace Pattern

def specials : List Char :=
  ['-', '/', '\\', '^', '$', '*', '+', '?', '.', '(', ')', '|', '[', ']', '{', '}']

def escapeChar (c : Char) : Text := if c ∈ specials then ['\\', c] else [c]

def escape (t : Text) : Text := t.flatMap escapeChar

def source : Pattern → Text
  | empty => []
  | char c => escapeChar c
  | blank => "\\s"
  | oneOf cs => '[' :: escape cs ++ "]"
  | star p => p.source ++ "*"
  | plus p => p.source ++ "+"
  | seq p q => p.source ++ q.source
  | alt p q => p.source ++ "|" ++ q.source
  | group p => '(' :: p.source ++ ")"
  | sameAs n => '\\' :: Text.ofNat n
  | notAhead p => "(?!" ++ p.source ++ ")"

def literal : Text → Pattern
  | [] => empty
  | [c] => char c
  | c :: rest => seq (char c) (literal rest)

def anyOf : List Pattern → Pattern
  | [] => empty
  | [p] => p
  | p :: rest => alt p (anyOf rest)

def inOrder : List Pattern → Pattern
  | [] => empty
  | [p] => p
  | p :: rest => seq p (inOrder rest)

theorem source_literal (t : Text) : (literal t).source = escape t := by
  fun_induction literal t with
  | case1 => rfl
  | case2 c => simp [source, escape]
  | case3 c rest _ ih => simp [source, escape, ih]

end Pattern

end LiteralGrammar
