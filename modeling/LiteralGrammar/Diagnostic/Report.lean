import LiteralGrammar.Diagnostic.Format

/-!
Reported errors: a kind, and either a bare message or a diagnostic that is printed as the message.
-/
namespace LiteralGrammar

inductive ErrorKind where
  | generation
  | serialization
  | unsupportedValue
  | cyclicValue
  | depthExceeded
  | writing
  | locale
deriving DecidableEq, Repr

def ErrorKind.lineage : ErrorKind → List ErrorKind
  | generation => [generation]
  | serialization => [serialization, generation]
  | unsupportedValue => [unsupportedValue, serialization, generation]
  | cyclicValue => [cyclicValue, serialization, generation]
  | depthExceeded => [depthExceeded, serialization, generation]
  | writing => [writing, generation]
  | locale => [locale, generation]

inductive Report where
  | note (message : Text)
  | diagnosed (d : Diagnostic)
deriving DecidableEq, Repr

def Report.message : Report → Text
  | note m => m
  | diagnosed d => d.plain

def Report.diagnostic? : Report → Option Diagnostic
  | note _ => none
  | diagnosed d => some d

end LiteralGrammar
