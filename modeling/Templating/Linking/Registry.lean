import Templating.Node
import Templating.Table

/-!
# Declared blocks

The registry of a linked document: the blocks declared under each name, and the lineage of each
merged block, that is, the blocks of ancestors that it was merged into. Any content is allowed;
a lineage that runs in a circle is followed once.
-/

namespace Templating

/-- The blocks of a linked document. -/
structure Registry where
  /-- Blocks in replace mode, by name, in order of declaration. -/
  blocks : Table String (List BlockId)
  /-- Lineage of merged blocks. -/
  parents : Table BlockId (List BlockId)
  deriving DecidableEq, Repr

namespace Registry

instance : Inhabited Registry := ⟨⟨.empty, .empty⟩⟩

/-- No blocks. -/
def empty : Registry := ⟨.empty, .empty⟩

/-- The blocks declared under a name. -/
def get (r : Registry) (name : String) : List BlockId := (r.blocks.get? name).getD []

/-- Some block is declared under the name. -/
def contains (r : Registry) (name : String) : Bool := r.blocks.contains name

/-- The lineage recorded for a block. -/
def parentsOf? (r : Registry) (id : BlockId) : Option (List BlockId) := r.parents.get? id

/-- The number of declared names. -/
def size (r : Registry) : Nat := r.blocks.size

/-- Declare a block, once. -/
def register (r : Registry) (name : String) (id : BlockId) : Registry :=
  let ids := r.get name
  { r with blocks := r.blocks.insert name (if id ∈ ids then ids else ids ++ [id]) }

/-- Record the lineage of a block. -/
def record (r : Registry) (id : BlockId) (targets : List BlockId) : Registry :=
  { r with parents := r.parents.insert id targets }

/-- Let the entries of `child` hide those of `r`. -/
def overlay (r child : Registry) : Registry :=
  ⟨r.blocks.overlay child.blocks, r.parents.overlay child.parents⟩

/-- Blocks met on a search, and the blocks left behind, in that order. -/
structure Search where
  seen : List BlockId
  found : List BlockId

/-- Search the lineage of a block, then add the block. Every step down adds a block with a
recorded lineage to those seen; `depth` bounds the steps. -/
def visit (r : Registry) : Nat → BlockId → Search → Search
  | depth, id, s =>
    if id ∈ s.seen then s
    else
      let s : Search := { s with seen := id :: s.seen }
      let s :=
        match depth with
        | 0 => s
        | depth + 1 => ((r.parentsOf? id).getD []).foldl (fun s p => visit r depth p s) s
      { s with found := s.found ++ [id] }

/-- Blocks with all their recorded ancestors, each once and behind its ancestors. -/
def flatten (r : Registry) (ids : List BlockId) : List BlockId :=
  (ids.foldl (fun s id => r.visit r.parents.size id s) ⟨[], []⟩).found

end Registry

end Templating
