import LiteralGrammar.CommandLine.Log
import LiteralGrammar.CommandLine.Options
import LiteralGrammar.FileTree.Replace

/-!
Runs of the program, with locale data installed. A grammar is generated from the options, and then
printed or handed to whatever keeps files; a tree of files can stand in for the real ones. Nothing is
printed or written unless the whole grammar is there.
-/
namespace LiteralGrammar.CommandLine

inductive Failure where
  | config (e : ConfigError)
  | fault (f : Block.Fault)
  | write (e : WriteError)
deriving DecidableEq, Repr

namespace Failure

def report : Failure → Report
  | config (.locale (.unknown code)) => .diagnosed (.localeUnknown code)
  | config e => .note e.message
  | fault f => f.report
  | write e => e.report

/-- Only diagnostics heed the format and the terminal. -/
def text (f : Failure) (format : DiagnosticFormat) (terminal : Bool) : Text :=
  match f.report with
  | .note m => "error: " ++ m
  | .diagnosed d => d.format format terminal

end Failure

structure Outcome where
  status : Nat
  output : Text := []
  errors : Text := []
deriving DecidableEq, Repr

namespace Stop

def usageText : Text :=
  "usage: quoterules [-h] [--version] [-o OUTPUT] [--scope-suffix SUFFIX] [--locale LOCALE]\n" ++
  "                  [--max-markers COUNT] [--error-format FORMAT] [-v]\n"

def versionText : Text := "quoterules 0.1.0\n"

def outcome : Stop → Outcome
  | usage => { status := 2, errors := usageText }
  | version => { status := 0, output := versionText }
  | help => { status := 0, output := usageText }

end Stop

namespace Options

def generate (o : Options) (locales : Locales) : List LogLine × Except Failure Text :=
  match Config.ofFields (.installed locales) o.fields with
  | .error e => ([], .error (.config e))
  | .ok c =>
    let s := RuleSet.ofConfig c
    let log := s.rules.map .built ++ [.assembled s]
    match s.grammar with
    | .error f => (log, .error (.fault f))
    | .ok grammar => (log ++ [.rendered s grammar], .ok (grammar ++ "\n"))

def succeed (o : Options) (log : List LogLine) (output : Text) : Outcome where
  status := 0
  output := output
  errors := transcript o.verbosity log

def fail (o : Options) (terminal : Bool) (log : List LogLine) (f : Failure) : Outcome where
  status := 1
  errors := transcript o.verbosity (log ++ [.failed]) ++ f.text o.errorFormat terminal ++ "\n"

end Options

abbrev Store (m : Type → Type) := Path → Text → m (Except WriteError Unit)

def Options.run {m : Type → Type} [Monad m] (o : Options) (locales : Locales) (store : Store m)
    (terminal : Bool) : m Outcome :=
  match o.generate locales with
  | (log, .error f) => pure (o.fail terminal log f)
  | (log, .ok text) =>
    match o.destination with
    | .standardOutput => pure (o.succeed log text)
    | .path p => do
      match ← store p text with
      | .ok () => return o.succeed (log ++ [.wrote p text]) []
      | .error e => return o.fail terminal log (.write e)

def run {m : Type → Type} [Monad m] (locales : Locales) (store : Store m) (terminal : Bool)
    (args : List Text) : m Outcome :=
  match Options.parse args with
  | .error stop => pure stop.outcome
  | .ok o => o.run locales store terminal

def treeStore (stamps : List Stamp) : Store (StateM FileTree) := fun p text t =>
  let (written, outcome) := t.writeGrammar stamps p text
  (outcome.map fun _ => (), written)

def runOnTree (locales : Locales) (stamps : List Stamp) (t : FileTree) (terminal : Bool)
    (args : List Text) : Outcome × FileTree :=
  (run locales (treeStore stamps) terminal args).run t

end LiteralGrammar.CommandLine
