import LiteralGrammar.Diagnostic.Basic
import LiteralGrammar.Json.Object

/-!
Three ways to print a diagnostic: over several lines with the facts indented below the message, on
one line with the code only, and as a JSON object. An absent fact and an empty one print alike.
-/
namespace LiteralGrammar

inductive DiagnosticFormat where
  | rust
  | simple
  | json
deriving DecidableEq, Repr

namespace DiagnosticFormat

def all : List DiagnosticFormat := [rust, simple, json]

def name : DiagnosticFormat → Text
  | rust => "rust"
  | simple => "simple"
  | json => "json"

def ofName? (name : Text) : Option DiagnosticFormat := all.find? (·.name = name)

def ofGiven (given : Given) : Except NoSuchMember DiagnosticFormat :=
  match given with
  | .text t => match ofName? t with
    | some format => .ok format
    | none => .error ⟨given, "OutputFormat"⟩
  | _ => .error ⟨given, "OutputFormat"⟩

end DiagnosticFormat

namespace Diagnostic

def stated (fact : Option Text) : Option Text := fact.filter (· ≠ [])

def errorColour : Text := "1;31"

def warningColour : Text := "1;33"

def paintedSeverity (d : Diagnostic) (colour : Bool) : Text :=
  if colour then
    let code := if d.severity = "error" then errorColour else warningColour
    "\x1b[" ++ code ++ "m" ++ d.severity ++ "\x1b[0m"
  else d.severity

def formatRust (d : Diagnostic) (colour : Bool) : Text :=
  let fact (label : Text) (value : Option Text) : List Text :=
    ((stated value).map (label ++ ·)).toList
  Text.join "\n" <|
    (d.paintedSeverity colour ++ "[" ++ d.code.name ++ "]: " ++ d.message)
      :: fact "  --> " d.path ++ fact "  = received: " d.receivedType ++ fact "  = help: " d.hint

def formatSimple (d : Diagnostic) : Text := d.code.name ++ ": " ++ d.message

def toJson (d : Diagnostic) : Json.Object :=
  let fact (name : Text) (value : Option Text) : Json.Object :=
    ((stated value).map fun t => (name, .text t)).toList
  let always : Json.Object :=
    [("code", .text d.code.name), ("code_value", .number d.code.number),
     ("message", .text d.message), ("severity", .text d.severity)]
  always ++ fact "path" d.path ++ fact "received_type" d.receivedType ++ fact "hint" d.hint

def format (d : Diagnostic) (style : DiagnosticFormat) (colour : Bool) : Text :=
  match style with
  | .rust => d.formatRust colour
  | .simple => d.formatSimple
  | .json => d.toJson.write

def plain (d : Diagnostic) : Text := d.format .rust false

end Diagnostic

end LiteralGrammar
