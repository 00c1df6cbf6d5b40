import LiteralGrammar.Quote

/-!
Markers: the optional features that a symbol in front of a literal switches on. The order of
declaration is canonical, and everything made from a set of markers follows it.
-/
namespace LiteralGrammar

inductive Marker where
  | escape
  | interpolated
  | format
  | template
deriving DecidableEq, Repr

namespace Marker

def canonical : List Marker := [escape, interpolated, format, template]

theorem mem_canonical (m : Marker) : m ∈ canonical := by cases m <;> decide

theorem canonical_nodup : canonical.Nodup := by decide

def name : Marker → Text
  | escape => "ESCAPE"
  | interpolated => "INTERPOLATED"
  | format => "FORMAT"
  | template => "TEMPLATE"

def value : Marker → Text
  | escape => "escape"
  | interpolated => "interpolated"
  | format => "format"
  | template => "template"

def symbol : Marker → Char
  | escape => '\\'
  | interpolated => '$'
  | format => '%'
  | template => '#'

def displayName : Marker → Text
  | escape => "verbatim"
  | m => m.value

def reference : Marker → Text
  | escape => "#string-escapes"
  | interpolated => "#embedded-expression"
  | format => "#embedded-format"
  | template => "#embedded-placeholder"

/-- What stands for the marker's own character inside a literal: the quote twice when escapes are
on, and the symbol twice for the other markers. -/
def doubled (m : Marker) (q : Quote) : Text :=
  let c := if m = escape then q.char else m.symbol
  [c, c]

def ofSymbol? (given : Given) : Option Marker := canonical.find? fun m => given = .text [m.symbol]

def ofValue (given : Given) : Except NoSuchMember Marker :=
  match canonical.find? fun m => given = .text m.value with
  | some m => .ok m
  | none => .error ⟨given, "Marker"⟩

end Marker

inductive MarkerSpelling where
  | marker (m : Marker)
  | symbol (given : Given)
deriving DecidableEq, Repr

inductive MarkerError where
  | unknownSymbol (given : Given)
  | duplicate (m : Marker)
deriving DecidableEq, Repr

def MarkerError.message : MarkerError → Text
  | unknownSymbol given => "Unknown marker symbol " ++ given.shown
  | duplicate m => "Duplicate marker " ++ Text.shown [m.symbol]

namespace MarkerSpelling

def resolve : MarkerSpelling → Except MarkerError Marker
  | marker m => .ok m
  | symbol given => match Marker.ofSymbol? given with
    | some m => .ok m
    | none => .error (.unknownSymbol given)

/-- The markers spelt, in order, behind those already seen. Stops at the first spelling that is
unknown or repeats an earlier one. -/
def resolveAll (seen : List Marker) : List MarkerSpelling → Except MarkerError (List Marker)
  | [] => .ok seen
  | s :: rest => do
    let m ← s.resolve
    if m ∈ seen then .error (.duplicate m) else resolveAll (seen ++ [m]) rest

def normalize (spellings : List MarkerSpelling) : Except MarkerError (List Marker) := do
  let resolved ← resolveAll [] spellings
  return Marker.canonical.filter (· ∈ resolved)

end MarkerSpelling

end LiteralGrammar
