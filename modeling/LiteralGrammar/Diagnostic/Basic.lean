import LiteralGrammar.Given

/-!
Diagnostics: a coded message, with optional facts about where it arose and what to do.
-/
namespace LiteralGrammar

/-- Codes below 2000 are about values, below 3000 about output, and above about the surroundings. -/
inductive DiagnosticCode where
  | unsupportedValue
  | cyclicValue
  | depthExceeded
  | writeFailed
  | localeUnknown
deriving DecidableEq, Repr

namespace DiagnosticCode

def all : List DiagnosticCode :=
  [unsupportedValue, cyclicValue, depthExceeded, writeFailed, localeUnknown]

def name : DiagnosticCode → Text
  | unsupportedValue => "UNSUPPORTED_VALUE"
  | cyclicValue => "CYCLIC_VALUE"
  | depthExceeded => "MAX_DEPTH_EXCEEDED"
  | writeFailed => "WRITE_FAILED"
  | localeUnknown => "LOCALE_UNKNOWN"

def number : DiagnosticCode → Nat
  | unsupportedValue => 1001
  | cyclicValue => 1002
  | depthExceeded => 1003
  | writeFailed => 2001
  | localeUnknown => 3001

def ofName? (name : Text) : Option DiagnosticCode := all.find? (·.name = name)

def ofNumber (n : Int) : Except NoSuchMember DiagnosticCode :=
  match all.find? fun c => (c.number : Int) = n with
  | some c => .ok c
  | none => .error ⟨.integer n, "DiagnosticCode"⟩

end DiagnosticCode

structure Diagnostic where
  code : DiagnosticCode
  message : Text
  hint : Option Text := none
  path : Option Text := none
  receivedType : Option Text := none
  severity : Text := "error"
deriving DecidableEq, Repr

namespace Diagnostic

def unsupportedValue (typeName path : Text) : Diagnostic where
  code := .unsupportedValue
  message := "Unsupported value kind '" ++ typeName ++ "'"
  hint := some "Convert the value to a mapping, sequence, string, number, boolean or None"
  path := some path
  receivedType := some typeName

def cyclicValue (typeName path : Text) : Diagnostic where
  code := .cyclicValue
  message := "Cyclic " ++ typeName ++ " detected"
  hint := some <| "Value trees must be acyclic; " ++
    "copy shared containers instead of nesting them in themselves"
  path := some path
  receivedType := some typeName

def depthExceeded (limit : Int) : Diagnostic where
  code := .depthExceeded
  message := "Maximum nesting depth (" ++ Text.ofInt limit ++ ") exceeded"
  hint := some "Flatten the value tree or raise max_depth"

def writeFailed (path reason : Text) : Diagnostic where
  code := .writeFailed
  message := "Cannot write grammar to '" ++ path ++ "': " ++ reason
  hint := some "Check that the destination directory is writable"
  path := some path

def localeUnknown (code : Text) : Diagnostic where
  code := .localeUnknown
  message := "Unknown locale '" ++ code ++ "'"
  hint := some "Use a CLDR locale identifier such as 'en' or 'en_GB'"

end Diagnostic

end LiteralGrammar
