import LiteralGrammar.CommandLine.Word
import LiteralGrammar.Config
import LiteralGrammar.Decimal.Numeral
import LiteralGrammar.FileTree.Path

/-!
Options. The words of a command line become settings, one after another; a setting that ends the
program does so before anything behind it is looked at. Arguments that belong to no option are
reported last.
-/
namespace LiteralGrammar.CommandLine

inductive Destination where
  | standardOutput
  | path (p : Path)
deriving DecidableEq, Repr

structure Options where
  destination : Destination := .standardOutput
  fields : ConfigFields := {}
  errorFormat : DiagnosticFormat := .rust
  verbosity : Nat := 0
deriving DecidableEq, Repr

inductive Stop where
  | usage
  | version
  | help
deriving DecidableEq, Repr

inductive Setting where
  | flag (s : Switch)
  | assign (s : Switch) (value : Text)
  | stray
  | malformed
deriving DecidableEq, Repr

namespace Setting

/-- The settings of one word with the words behind it, and the words left. Nothing is set if any
part is malformed. -/
def ofWord (word : Word) (rest : List Word) : Option (List Setting × List Word) :=
  match word with
  | .value _ => some ([stray], rest)
  | .unknown flags => some (flags.map flag ++ [stray], rest)
  | .given flags s t => some (flags.map flag ++ [assign s t], rest)
  | .option flags s =>
    if s.takesValue then
      match rest with
      | .value t :: rest => some (flags.map flag ++ [assign s t], rest)
      | _ => none
    else some (flags.map flag ++ [flag s], rest)
  | .malformed => none

theorem length_ofWord {word : Word} {rest left : List Word} {settings : List Setting}
    (found : ofWord word rest = some (settings, left)) : left.length ≤ rest.length := by
  unfold ofWord at found
  split at found
  case h_4 =>
    split at found
    · split at found
      · cases found
        simp
      · contradiction
    · cases found
      exact Nat.le_refl _
  case h_5 => contradiction
  all_goals
    cases found
    exact Nat.le_refl _

def ofWords : List Word → List Setting
  | [] => []
  | word :: rest =>
    match found : ofWord word rest with
    | none => [malformed]
    | some (settings, left) =>
      have := length_ofWord found
      settings ++ ofWords left
termination_by words => words.length
decreasing_by
  simp only [List.length_cons]
  omega

end Setting

namespace Options

def assign (o : Options) (s : Switch) (value : Text) : Except Stop Options :=
  match s with
  | .output => .ok { o with destination := .path (.ofText value) }
  | .scopeSuffix => .ok { o with fields.scopeSuffix := value }
  | .locale => .ok { o with fields.localeCode := value }
  | .maxMarkers =>
    match Decimal.int? value with
    | some n =>
      if 0 ≤ n ∧ n ≤ markerCount then .ok { o with fields.maxMarkers := n } else .error .usage
    | none => .error .usage
  | .errorFormat =>
    match DiagnosticFormat.ofName? value with
    | some format => .ok { o with errorFormat := format }
    | none => .error .usage
  | .help | .version | .verbose => .error .usage

def apply (o : Options) : Setting → Except Stop Options
  | .flag .verbose => .ok { o with verbosity := o.verbosity + 1 }
  | .flag .version => .error .version
  | .flag .help => .error .help
  | .flag _ | .malformed => .error .usage
  | .assign s value => o.assign s value
  | .stray => .ok o

/-- Nothing behind two hyphens alone is an option. -/
def parse (args : List Text) : Except Stop Options := do
  let front := args.takeWhile (· ≠ ("--" : Text))
  let settings := Setting.ofWords (front.map Word.ofArgument)
  let o ← settings.foldlM apply {}
  if .stray ∈ settings ∨ front.length < args.length then .error .usage else .ok o

end Options

end LiteralGrammar.CommandLine
