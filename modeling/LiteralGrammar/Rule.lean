import LiteralGrammar.Block.Tree
import LiteralGrammar.Config
import LiteralGrammar.Pattern

/-!
Rules. A rule describes one variant of a string literal: its quote, whether its delimiters are
tripled, and the markers whose symbols may stand in front of the opening quote.
-/
namespace LiteralGrammar

structure Rule where
  description : Text
  /-- An optional flag and the opening delimiter, between blanks. -/
  opening : Pattern
  contentName : Text
  /-- The same run of quotes as the opening one, and no quote behind it. -/
  closing : Pattern
  captures : List (Nat × Text)
  references : List Text
  /-- The doubled characters that stand for themselves; nothing unless escapes are on beside
  another marker. -/
  doubled : Pattern
  doubledScope : Text
  quote : Quote
  multiline : Bool
  markers : List Marker
deriving DecidableEq, Repr

inductive QuoteSpelling where
  | quote (q : Quote)
  | given (g : Given)
deriving DecidableEq, Repr

inductive RuleError where
  | quote (given : Given)
  | markers (e : MarkerError)
deriving DecidableEq, Repr

def RuleError.message : RuleError → Text
  | quote given => "Unsupported quote character " ++ given.shown ++ " (expected ' or \")"
  | markers e => e.message

def QuoteSpelling.resolve : QuoteSpelling → Except RuleError Quote
  | quote q => .ok q
  | given g => match Quote.ofGiven? g with
    | some q => .ok q
    | none => .error (.quote g)

namespace Rule

def flagGroup : Nat := 1

def delimiterGroup : Nat := 2

/-- One marker is its symbol; several may come in any order and number. -/
def flag : List Marker → Pattern
  | [] => .empty
  | [m] => .char m.symbol
  | ms => .plus (.oneOf (ms.map Marker.symbol))

def delimiter (q : Quote) (multiline : Bool) : Pattern :=
  if multiline then .inOrder [.char q.char, .char q.char, .plus (.char q.char)] else .char q.char

def blanks : Pattern := .star .blank

def openingOf (q : Quote) (multiline : Bool) (markers : List Marker) : Pattern :=
  .inOrder [blanks, .group (flag markers), .group (delimiter q multiline), blanks]

def closingOf (q : Quote) : Pattern :=
  .inOrder [blanks,
    .group (.inOrder [.group (.sameAs delimiterGroup), .notAhead (.plus (.char q.char))])]

def doubledOf (q : Quote) (markers : List Marker) : Pattern :=
  if .escape ∈ markers then
    .anyOf ((markers.filter (· ≠ .escape)).map fun m => .literal (m.doubled q))
  else .empty

def referencesOf (markers : List Marker) : List Text :=
  (if .escape ∈ markers then [] else [Marker.escape.reference]) ++ markers.map Marker.reference

def capturesOf (suffix : Text) (markers : List Marker) : List (Nat × Text) :=
  (if markers = [] then [] else [(flagGroup, "storage.type.string." ++ suffix)])
    ++ [(delimiterGroup, "punctuation.definition.string." ++ suffix)]

def featuresOf (join : List Text → Text) : List Marker → Text
  | [] => "plain"
  | [m] => m.displayName
  | markers => join (markers.map Marker.displayName)

def describe (q : Quote) (multiline : Bool) (features : Text) : Text :=
  let multi : Text := if multiline then "multi" else ""
  Text.collapseBlanks <| multi ++ " " ++ q.label ++ "-quoted " ++ features ++ " string"

/-- The rule for markers in canonical order. -/
def ofFeatures (suffix features : Text) (q : Quote) (multiline : Bool) (markers : List Marker) :
    Rule where
  description := describe q multiline features
  opening := openingOf q multiline markers
  contentName := "string.quoted." ++ q.label ++ "." ++ suffix
  closing := closingOf q
  captures := capturesOf suffix markers
  references := referencesOf markers
  doubled := doubledOf q markers
  doubledScope := "constant.character.escape." ++ suffix
  quote := q
  multiline
  markers

def ofMarkers (c : Config) (q : Quote) (multiline : Bool) (markers : List Marker) : Rule :=
  ofFeatures c.scopeSuffix (featuresOf c.locale.join markers) q multiline markers

def buildWith (suffix : Text) (join : List Text → Text) (quote : QuoteSpelling) (multiline : Bool)
    (markers : List MarkerSpelling) : Except RuleError Rule := do
  let q ← quote.resolve
  let ms ← (MarkerSpelling.normalize markers).mapError .markers
  return ofFeatures suffix (featuresOf join ms) q multiline ms

def build (c : Config) (quote : QuoteSpelling) (multiline : Bool) (markers : List MarkerSpelling) :
    Except RuleError Rule :=
  buildWith c.scopeSuffix c.locale.join quote multiline markers

def toTree (r : Rule) : Block.Tree :=
  .dict [
    ("comment", .text r.description),
    ("begin", .text r.opening.source),
    ("contentName", .text r.contentName),
    ("end", .text r.closing.source),
    ("captures", .dict (r.captures.map fun (n, scope) =>
      (Text.ofNat n, .dict [("name", .text scope)]))),
    ("patterns", .list (r.references.map fun reference => .dict [("include", .text reference)]))]

end Rule

end LiteralGrammar
