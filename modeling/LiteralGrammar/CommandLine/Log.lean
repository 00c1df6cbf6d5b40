import LiteralGrammar.FileTree.Path
import LiteralGrammar.RuleSet

/-!
Log lines. Each option for more output lowers the level from which lines are shown.
-/
namespace LiteralGrammar.CommandLine

inductive LogLevel where
  | debug
  | info
deriving DecidableEq, Repr

namespace LogLevel

def name : LogLevel → Text
  | debug => "DEBUG"
  | info => "INFO"

def threshold : LogLevel → Nat
  | debug => 2
  | info => 1

end LogLevel

structure LogLine where
  level : LogLevel
  logger : Text
  message : Text
deriving DecidableEq, Repr

namespace LogLine

def text (l : LogLine) : Text := l.level.name ++ " " ++ l.logger ++ ": " ++ l.message

def built (r : Rule) : LogLine :=
  ⟨.debug, "quoterules.grammar.rules", "Built rule " ++ r.description.shown⟩

def assembled (s : RuleSet) : LogLine :=
  ⟨.debug, "quoterules.grammar.assembler", "Assembled " ++ Text.ofNat s.size ++ " string rules"⟩

def rendered (s : RuleSet) (grammar : Text) : LogLine :=
  ⟨.debug, "quoterules.generate",
    "Rendered " ++ Text.ofNat s.size ++ " rules into " ++ Text.ofNat grammar.length ++ " characters"⟩

def wrote (p : Path) (content : Text) : LogLine :=
  ⟨.info, "quoterules.emit",
    "Wrote " ++ Text.ofNat content.byteSize ++ " bytes to " ++ p.text⟩

def failed : LogLine := ⟨.debug, "quoterules.cli", "Generation failed"⟩

end LogLine

def transcript (verbosity : Nat) (lines : List LogLine) : Text :=
  (lines.filter (·.level.threshold ≤ verbosity)).flatMap fun l => l.text ++ "\n"

end LiteralGrammar.CommandLine
