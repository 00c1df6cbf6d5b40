import LiteralGrammar.Decimal.Digit

/-!
Arguments of the command line, taken one by one: options by their full name, by the beginning of a
long name, or bundled behind one hyphen, and everything that can only be a value. What is wrong with
an argument counts only when its turn comes.
-/
namespace LiteralGrammar.CommandLine

inductive Switch where
  | help
  | version
  | output
  | scopeSuffix
  | locale
  | maxMarkers
  | errorFormat
  | verbose
deriving DecidableEq, Repr

namespace Switch

def all : List Switch :=
  [help, version, output, scopeSuffix, locale, maxMarkers, errorFormat, verbose]

def long : Switch → Text
  | help => "--help"
  | version => "--version"
  | output => "--output"
  | scopeSuffix => "--scope-suffix"
  | locale => "--locale"
  | maxMarkers => "--max-markers"
  | errorFormat => "--error-format"
  | verbose => "--verbose"

def short? : Switch → Option Char
  | help => some 'h'
  | output => some 'o'
  | verbose => some 'v'
  | _ => none

def takesValue : Switch → Bool
  | help | version | verbose => false
  | _ => true

def ofShort? (c : Char) : Option Switch := all.find? (·.short? = some c)

def ofExact? (t : Text) : Option Switch :=
  all.find? fun s => t = s.long || s.short?.any fun c => t = ['-', c]

def ofBeginning (t : Text) : List Switch := all.filter (t.isPrefixOf ·.long)

end Switch

/-- What an argument says. Letters of options that take no value may stand bundled in front of
another one. -/
inductive Word where
  | value (t : Text)
  | option (flags : List Switch) (last : Switch)
  | given (flags : List Switch) (last : Switch) (t : Text)
  /-- No option is called that, though those in front may act. -/
  | unknown (flags : List Switch)
  | malformed
deriving DecidableEq, Repr

namespace Word

/-- An integer or a decimal fraction behind a hyphen; a line feed may follow. -/
def isNegativeNumber (t : Text) : Bool :=
  let isDigit c := (Decimal.digit? c).isSome
  match t with
  | '-' :: rest =>
    let body := if rest.getLast? = some '\n' then rest.dropLast else rest
    let fraction := body.dropWhile isDigit
    match fraction with
    | [] => body ≠ []
    | '.' :: places => places ≠ [] && places.all isDigit
    | _ => false
  | _ => false

def splitEquals (t : Text) : Text × Option Text :=
  match t.dropWhile (· ≠ '=') with
  | _ :: rest => (t.takeWhile (· ≠ '='), some rest)
  | [] => (t, none)

def leftover (t : Text) : Word :=
  if isNegativeNumber t || t.contains ' ' then value t else unknown []

def giving (flags : List Switch) (s : Switch) (t : Text) : Word :=
  if s.takesValue then given flags s t else malformed

/-- The letters behind the one of `s`. The first option that takes a value takes all that is left,
and an equals sign in front of a value behind other letters is no part of it. -/
def unbundle (flags : List Switch) (s : Switch) : Text → Word
  | [] => option flags s
  | c :: rest =>
    if s.takesValue then given flags s (c :: rest)
    else if c = '-' then malformed
    else match Switch.ofShort? c, rest with
      | none, _ => unknown (flags ++ [s])
      | some next, '=' :: t => giving (flags ++ [s]) next t
      | some next, rest => unbundle (flags ++ [s]) next rest

/-- The beginning of several long options is malformed. -/
def ofArgument (t : Text) : Word :=
  match t with
  | '-' :: c :: rest =>
    let (name, behind) := splitEquals t
    match Switch.ofExact? t, Switch.ofExact? name, behind with
    | some s, _, _ => option [] s
    | none, some s, some v => giving [] s v
    | _, _, _ =>
      if c = '-' then
        match Switch.ofBeginning name, behind with
        | [], _ => leftover t
        | [s], some v => giving [] s v
        | [s], none => option [] s
        | _, _ => malformed
      else
        match Switch.ofShort? c with
        | some s => unbundle [] s rest
        | none => leftover t
  | _ => value t

end Word

end LiteralGrammar.CommandLine
