import CaseUpdate.Batch.Statement
import CaseUpdate.Ordered

namespace CaseUpdate.Batch

/-- What the rows of a batch have contributed so far. -/
structure Gathered where
  blocks : List Block
  /-- Where among the blocks the one of a column stands. -/
  positions : List (String × Nat)
  keys : List Scalar

namespace Gathered

def empty : Gathered := ⟨[], [], []⟩

/-- The position of a column's block. A column without one gets an empty block at the end. -/
def place (g : Gathered) (column : String) : Nat × Gathered :=
  match Ordered.get? column g.positions with
  | some i => (i, g)
  | none => (g.blocks.length, { g with
      blocks := g.blocks ++ [⟨column, []⟩]
      positions := Ordered.put column g.blocks.length g.positions })

/-- Files a branch in the block of its column. -/
def push (g : Gathered) (column : String) (b : Branch) : Gathered :=
  let (i, g) := g.place column
  { g with blocks := g.blocks.modify i fun block => ⟨block.column, block.branches ++ [b]⟩ }

def addKey (g : Gathered) (key : Scalar) : Gathered := { g with keys := g.keys ++ [key] }

end Gathered

end CaseUpdate.Batch
