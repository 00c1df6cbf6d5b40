import LiteralGrammar.Text.Shown

/-!
Values that a caller supplies where the name or symbol of something is expected. Only texts name
anything; the other kinds occur in messages.
-/
namespace LiteralGrammar

inductive Given where
  | text (t : Text)
  | integer (n : Int)
  | truth (b : Bool)
  | nothing
deriving DecidableEq, Repr

def Given.shown : Given → Text
  | text t => t.shown
  | integer n => Text.ofInt n
  | truth true => "True"
  | truth false => "False"
  | nothing => "None"

structure NoSuchMember where
  given : Given
  family : Text
deriving DecidableEq, Repr

def NoSuchMember.message (e : NoSuchMember) : Text :=
  e.given.shown ++ " is not a valid " ++ e.family

end LiteralGrammar
