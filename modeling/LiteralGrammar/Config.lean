import LiteralGrammar.Locale
import LiteralGrammar.Marker

/-!
What a grammar is generated for: the language segment of its scope names, the locale of its
descriptions, and the largest combination of markers. The fields are checked in this order, and a
configuration holds only what passed.
-/
namespace LiteralGrammar

def isScopeSegment : Text → Bool
  | [] => false
  | c :: rest => c.isAlphanum && rest.all fun d => d.isAlphanum || d = '_' || d = '-'

def markerCount : Nat := 4

structure Config where
  scopeSuffix : Text
  localeCode : Text
  locale : Locale
  maxMarkers : Nat
  isSegment : isScopeSegment scopeSuffix = true
  maxMarkers_le : maxMarkers ≤ markerCount

inductive ConfigError where
  | scopeSuffix (given : Text)
  | maxMarkers (given : Int)
  | locale (e : LocaleError)
deriving DecidableEq, Repr

def ConfigError.message : ConfigError → Text
  | scopeSuffix given => "scope_suffix must be a single scope segment, got " ++ given.shown
  | maxMarkers given => "max_markers must be between 0 and " ++ Text.ofNat markerCount ++
      ", got " ++ Text.ofInt given
  | locale e => e.message

structure ConfigFields where
  scopeSuffix : Text := "hitori"
  localeCode : Text := "en"
  maxMarkers : Int := markerCount
deriving DecidableEq, Repr

def ConfigFields.standard : ConfigFields := {}

namespace Config

def ofFields (data : LocaleData) (f : ConfigFields) : Except ConfigError Config :=
  if hs : isScopeSegment f.scopeSuffix = true then
    if hm : 0 ≤ f.maxMarkers ∧ f.maxMarkers ≤ markerCount then
      match data.resolve f.localeCode with
      | .error e => .error (.locale e)
      | .ok locale => .ok
        { scopeSuffix := f.scopeSuffix
          localeCode := f.localeCode
          locale
          maxMarkers := f.maxMarkers.toNat
          isSegment := hs
          maxMarkers_le := by omega }
    else .error (.maxMarkers f.maxMarkers)
  else .error (.scopeSuffix f.scopeSuffix)

def standard : Config where
  scopeSuffix := "hitori"
  localeCode := "en"
  locale := .english
  maxMarkers := markerCount
  isSegment := by decide
  maxMarkers_le := by decide

end Config

end LiteralGrammar
