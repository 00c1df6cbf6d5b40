import LiteralGrammar.Text.Basic

/-!
Nesting depth and its limit. A level of nesting costs three stack frames, so the limit that a caller
requests is cut to what the stack has room for. The counter checks the limit before it counts, and
a refused entry leaves it as it was; leaving always counts down, so the depth may fall below zero.
-/
namespace LiteralGrammar.Depth

def framesPerLevel : Int := 3

def reservedFrames : Int := 50

def standardStack : Int := 1000

/-- The most levels a stack has room for, negative when the reserve exceeds the stack. -/
def deepest (stack reserve : Int) : Int := Int.fdiv (stack - reserve) framesPerLevel

def clamp (requested stack reserve : Int) : Int := min requested (deepest stack reserve)

def clampWarning? (requested stack reserve : Int) : Option Text :=
  if deepest stack reserve < requested then
    some <| "Requested depth " ++ Text.ofInt requested ++ " exceeds Python recursion limit ("
      ++ Text.ofInt stack ++ "). Clamping to " ++ Text.ofInt (deepest stack reserve)
      ++ " to prevent RecursionError. Consider increasing sys.setrecursionlimit() if needed."
  else none

structure Guard where
  limit : Int
  depth : Int
deriving DecidableEq, Repr

namespace Guard

def ofRequest (requested stack : Int) : Guard := ⟨clamp requested stack reservedFrames, 0⟩

def enter? (g : Guard) : Option Guard :=
  if g.depth < g.limit then some { g with depth := g.depth + 1 } else none

def exit (g : Guard) : Guard := { g with depth := g.depth - 1 }

inductive Step where
  | enter
  | exit
deriving DecidableEq, Repr

def step (g : Guard) : Step → Guard × Bool
  | .enter => match g.enter? with
    | some entered => (entered, false)
    | none => (g, true)
  | .exit => (g.exit, false)

def run (g : Guard) : List Step → List (Guard × Bool)
  | [] => []
  | s :: rest => g.step s :: (g.step s).1.run rest

end Guard

end LiteralGrammar.Depth
