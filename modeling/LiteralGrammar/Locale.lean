import LiteralGrammar.Diagnostic.Report

/-!
Locales, which put the words of a list together. Which codes name one is up to the locale data; there
may be no data at all.
-/
namespace LiteralGrammar

structure Locale where
  id : Text
  join : List Text → Text

namespace Locale

def english : Locale where
  id := "en"
  join words := match words.reverse with
    | [] => []
    | [word] => word
    | [last, first] => first ++ " and " ++ last
    | last :: before => Text.join ", " before.reverse ++ ", and " ++ last

end Locale

abbrev Locales := Text → Option Locale

inductive LocaleData where
  | installed (locales : Locales)
  | absent

inductive LocaleError where
  | unknown (code : Text)
  | noData (feature : Text)
deriving DecidableEq, Repr

def LocaleError.message : LocaleError → Text
  | unknown code => (Diagnostic.localeUnknown code).plain
  | noData feature => feature ++ " requires Babel for CLDR locale data. " ++
      "Install with: pip install Babel"

namespace LocaleData

def isInstalled : LocaleData → Bool
  | installed _ => true
  | absent => false

def require (d : LocaleData) (feature : Text) : Except LocaleError Unit :=
  if d.isInstalled then .ok () else .error (.noData feature)

def requireLists (d : LocaleData) : Except LocaleError Unit := d.require "get_babel_lists"

/-- Hyphens and underscores are the same in a code. -/
def find? (d : LocaleData) (code : Text) : Option Locale :=
  match d with
  | installed locales => locales (code.map fun c => if c = '-' then '_' else c)
  | absent => none

def resolve (d : LocaleData) (code : Text) : Except LocaleError Locale := do
  d.require "resolve_locale"
  match d.find? code with
  | some locale => .ok locale
  | none => .error (.unknown code)

def formatList (d : LocaleData) (items : List Text) (code : Text) : Except LocaleError Text := do
  let locale ← d.resolve code
  d.requireLists
  return locale.join items

end LocaleData

end LiteralGrammar
