import LiteralGrammar.Block.Fault
import LiteralGrammar.Block.Graph
import LiteralGrammar.Block.Layout

/-!
The writer. It walks a value graph with a depth guard and the containers that are open, the newest
first, and gives the text in block layout or the first fault. What is open is closed again whether
the walk succeeds or not.
-/
namespace LiteralGrammar.Block

structure Writer where
  maxDepth : Nat
  indentWidth : Nat
  maxDepth_pos : 0 < maxDepth := by decide
  indentWidth_pos : 0 < indentWidth := by decide
  runtime : Runtime := {}
deriving DecidableEq, Repr

inductive WriterError where
  | maxDepth
  | indentWidth
deriving DecidableEq, Repr

def WriterError.message : WriterError → Text
  | maxDepth => "max_depth must be positive"
  | indentWidth => "indent_width must be positive"

namespace Writer

def defaultDepth : Nat := 100

def defaultIndent : Nat := 2

def standard : Writer := { maxDepth := defaultDepth, indentWidth := defaultIndent }

def ofSizes (maxDepth indentWidth : Int) : Except WriterError Writer :=
  if hd : 0 < maxDepth then
    if hw : 0 < indentWidth then
      .ok ⟨maxDepth.toNat, indentWidth.toNat, by omega, by omega, {}⟩
    else .error .indentWidth
  else .error .maxDepth

def guard (w : Writer) : Depth.Guard := .ofRequest w.maxDepth w.runtime.stack

end Writer

structure Traversal (ν : Type) where
  guard : Depth.Guard
  ancestors : List ν
deriving DecidableEq, Repr

namespace Traversal

variable {ν : Type}

def leave [DecidableEq ν] (s : Traversal ν) (id : ν) : Traversal ν :=
  ⟨s.guard.exit, s.ancestors.erase id⟩

def room (s : Traversal ν) : Nat := (s.guard.limit - s.guard.depth).toNat

end Traversal

abbrev Writing (ν : Type) := ExceptT Fault (StateM (Traversal ν))

variable {ν : Type}

def Writing.ofExcept {α : Type} : Except Fault α → Writing ν α
  | .ok a => pure a
  | .error f => throw f

variable [DecidableEq ν]

/-- Runs the body with the container open. A container inside itself is refused before the depth is
looked at. -/
def entering (g : Graph ν) (id : ν) (place : Place) (body : Writing ν Text) : Writing ν Text := do
  let s ← get
  if id ∈ s.ancestors then throw (.cyclic (g id).typeName place)
  match s.guard.enter? with
  | none => throw (.tooDeep s.guard.limit)
  | some guard =>
    set (Traversal.mk guard (id :: s.ancestors))
    try body finally modify (·.leave id)

namespace Writer

/-- Writes one place of the graph. `room` bounds the containers entered one inside another, and the
guard refuses entry no later than it runs out. -/
def writeWithin (w : Writer) (g : Graph ν) (room : Nat) (layout : Layout) (place : Place) :
    Slot ν → Writing ν Text
  | .scalar s => .ofExcept (s.write w.runtime w.indentWidth)
  | .foreign typeName => throw (.unsupported typeName place)
  | .held id => entering g id place <|
    match room with
    | 0 => throw (.tooDeep w.guard.limit)
    | room + 1 =>
      match g id, layout with
      | .sequence _ items, .inline => do
        let parts ← items.zipIdx.mapM fun (item, i) =>
          w.writeWithin g room .inline (place ++ [.item i]) item
        pure (inlineSequence parts)
      | .mapping _ entries, .inline => do
        let parts ← entries.mapM fun (key, value) => do
          let name ← .ofExcept (key.write w.runtime place)
          let written ← w.writeWithin g room .inline (place ++ [.key name]) value
          pure (name, written)
        pure (inlineMapping parts)
      | .sequence _ [], .block => pure "[]"
      | .sequence _ items, .block => do
        let flat := !items.any g.isContainer
        let inner := if flat then .inline else .block
        let parts ← items.zipIdx.mapM fun (item, i) =>
          w.writeWithin g room inner (place ++ [.item i]) item
        pure (if flat then flatItems parts else hungItems parts)
      | .mapping _ [], .block => pure "\x7b\x7d"
      | .mapping _ entries, .block => do
        let parts ← entries.mapM fun (key, value) => do
          let name ← .ofExcept (key.write w.runtime place)
          let inner := if isNumeric name then .inline else .block
          let written ← w.writeWithin g room inner (place ++ [.key name]) value
          pure (blockEntry w.indentWidth name written (g.isNested value))
        pure (Text.unlines parts)

def write (w : Writer) (g : Graph ν) (layout : Layout) (place : Place) (slot : Slot ν) :
    Writing ν Text := do
  let s ← get
  w.writeWithin g s.room layout place slot

def serialize (w : Writer) (g : Graph ν) (root : Slot ν) : Except Fault Text :=
  ((w.write g .block [] root).run ⟨w.guard, []⟩).1

end Writer

end LiteralGrammar.Block
