import Templating.Proofs.Node.Frame

/-!
# Named blocks of a tree

The named blocks of a tree in document order, and passes that rebuild every named block from its
head and its content, innermost first. Overriding blocks, dissolving them and taking marks off
them are such passes. One pass after another is again such a pass (`mapBlocksAll_mapBlocksAll`),
and a pass depends only on what it does to the blocks that are there (`mapBlocksAll_congr`).
-/

namespace Templating

/-- A named block with its content. -/
structure NamedBlock where
  head : BlockHead
  nodes : List Node

namespace Node

mutual

/-- The named blocks inside a node. Loaded documents are not entered. -/
def blocks : Node → List NamedBlock
  | .block h ns => ⟨h, ns⟩ :: blocksAll ns
  | .group ⟨ns, _⟩ => blocksAll ns
  | .includes _ _ (some ⟨ns, _⟩) _ => blocksAll ns
  | .mixin _ (some ⟨ns, _⟩) => blocksAll ns
  | .filter _ ⟨ns, _⟩ => blocksAll ns
  | .tag _ ⟨ns, _⟩ => blocksAll ns
  | _ => []
  termination_by structural n => n

/-- The named blocks inside nodes, in document order. -/
def blocksAll : List Node → List NamedBlock
  | [] => []
  | n :: ns => blocks n ++ blocksAll ns
  termination_by structural ns => ns

end

mutual

/-- Rebuild the named blocks inside a node, innermost first. -/
def mapBlocks (f : BlockHead → List Node → Node) : Node → Node
  | .block h ns => f h (mapBlocksAll f ns)
  | .group ⟨ns, p⟩ => .group ⟨mapBlocksAll f ns, p⟩
  | .includes g d (some ⟨ns, p⟩) q => .includes g d (some ⟨mapBlocksAll f ns, p⟩) q
  | .mixin h (some ⟨ns, p⟩) => .mixin h (some ⟨mapBlocksAll f ns, p⟩)
  | .filter u ⟨ns, p⟩ => .filter u ⟨mapBlocksAll f ns, p⟩
  | .tag h ⟨ns, p⟩ => .tag h ⟨mapBlocksAll f ns, p⟩
  | n => n
  termination_by structural n => n

/-- Rebuild the named blocks inside nodes. -/
def mapBlocksAll (f : BlockHead → List Node → Node) : List Node → List Node
  | [] => []
  | n :: ns => mapBlocks f n :: mapBlocksAll f ns
  termination_by structural ns => ns

end

/-- Nodes with other heads on their named blocks. -/
def mapHeadsAll (f : BlockHead → BlockHead) (ns : List Node) : List Node :=
  mapBlocksAll (fun h xs ↦ .block (f h) xs) ns

/-- Nodes whose named blocks have other content, which may depend on the head and the content. -/
def rewriteAll (f : BlockHead → List Node → List Node) (ns : List Node) : List Node :=
  mapBlocksAll (fun h xs ↦ .block h (f h xs)) ns

end Node

/-- The head without what linking notes on it: number, lineage and mark. -/
def BlockHead.bare (h : BlockHead) : BlockHead :=
  { h with id := none, parents := none, ignored := false }

/-- The head without what a merge notes on it: lineage and mark. -/
def BlockHead.unmarked (h : BlockHead) : BlockHead := { h with parents := none, ignored := false }

namespace Node

/-- Nodes without the numbers, lineages and marks of their named blocks. -/
abbrev bareAll (ns : List Node) : List Node := mapHeadsAll BlockHead.bare ns

/-! ### Frames and leaves -/

@[simp] theorem blocks_framed (F : Frame) (ns : List Node) :
    blocks (framed F ns) = blocksAll ns := by
  cases F <;> rfl

theorem blocks_leaf {n : Node} (h : isLeaf n) : blocks n = [] := by
  cases n, h using leaf_cases <;> rfl

@[simp] theorem mapBlocks_framed (f : BlockHead → List Node → Node) (F : Frame)
    (ns : List Node) : mapBlocks f (framed F ns) = framed F (mapBlocksAll f ns) := by
  cases F <;> rfl

theorem mapBlocks_leaf {n : Node} (h : isLeaf n) (f : BlockHead → List Node → Node) :
    mapBlocks f n = n := by
  cases n, h using leaf_cases <;> rfl

@[simp] theorem blocksAll_nil : blocksAll [] = [] := rfl

@[simp] theorem blocksAll_cons (n : Node) (ns : List Node) :
    blocksAll (n :: ns) = blocks n ++ blocksAll ns := rfl

@[simp] theorem blocks_block (h : BlockHead) (ns : List Node) :
    blocks (.block h ns) = ⟨h, ns⟩ :: blocksAll ns := rfl

@[simp] theorem mapBlocksAll_nil (f : BlockHead → List Node → Node) :
    mapBlocksAll f [] = [] := rfl

@[simp] theorem mapBlocksAll_cons (f : BlockHead → List Node → Node) (n : Node)
    (ns : List Node) : mapBlocksAll f (n :: ns) = mapBlocks f n :: mapBlocksAll f ns := rfl

@[simp] theorem mapBlocks_block (f : BlockHead → List Node → Node) (h : BlockHead)
    (ns : List Node) : mapBlocks f (.block h ns) = f h (mapBlocksAll f ns) := rfl

@[simp] theorem blocksAll_append (ns ms : List Node) :
    blocksAll (ns ++ ms) = blocksAll ns ++ blocksAll ms := by
  induction ns with
  | nil => rfl
  | cons n ns ih => simp [ih]

theorem blocksAll_eq_flatMap (ns : List Node) : blocksAll ns = ns.flatMap blocks := by
  induction ns with
  | nil => rfl
  | cons n ns ih => simp [ih]

@[simp] theorem mapBlocksAll_append (f : BlockHead → List Node → Node) (ns ms : List Node) :
    mapBlocksAll f (ns ++ ms) = mapBlocksAll f ns ++ mapBlocksAll f ms := by
  induction ns with
  | nil => rfl
  | cons n ns ih => simp [ih]

/-! ### Properties of all blocks -/

section

variable {P : NamedBlock → Prop} {inner ns : List Node}

theorem forall_mem_blocksAll_leaf {n : Node} (hn : isLeaf n) :
    (∀ b ∈ blocksAll (n :: ns), P b) ↔ ∀ b ∈ blocksAll ns, P b := by
  rw [blocksAll_cons, blocks_leaf hn, List.nil_append]

theorem forall_mem_blocksAll_framed {F : Frame} :
    (∀ b ∈ blocksAll (framed F inner :: ns), P b) ↔
      (∀ b ∈ blocksAll inner, P b) ∧ ∀ b ∈ blocksAll ns, P b := by
  rw [blocksAll_cons, blocks_framed, List.forall_mem_append]

theorem forall_mem_blocksAll_block {k : BlockHead} :
    (∀ b ∈ blocksAll (.block k inner :: ns), P b) ↔
      P ⟨k, inner⟩ ∧ (∀ b ∈ blocksAll inner, P b) ∧ ∀ b ∈ blocksAll ns, P b := by
  rw [blocksAll_cons, blocks_block, List.cons_append, List.forall_mem_cons,
    List.forall_mem_append]

end

/-! ### Passes over blocks -/

/-- A pass depends only on what it makes of the blocks that are there. -/
theorem mapBlocksAll_congr {f g : BlockHead → List Node → Node} {ns : List Node}
    (h : ∀ b ∈ blocksAll ns, ∀ xs, f b.head xs = g b.head xs) :
    mapBlocksAll f ns = mapBlocksAll g ns := by
  induction ns using forest_induction with
  | nil => rfl
  | leaf n ns hn ih =>
    rw [forall_mem_blocksAll_leaf hn] at h
    simp [mapBlocks_leaf hn, ih h]
  | frame F inner ns ihi ih =>
    rw [forall_mem_blocksAll_framed] at h
    simp [ihi h.1, ih h.2]
  | block k inner ns ihi ih =>
    rw [forall_mem_blocksAll_block] at h
    simp [ihi h.2.1, ih h.2.2, h.1]

/-- A pass over the result of a pass is one pass, if it can go through what the first pass makes
of a block. -/
theorem mapBlocksAll_mapBlocksAll {f g k : BlockHead → List Node → Node} {ns : List Node}
    (h : ∀ b ∈ blocksAll ns, ∀ xs, mapBlocks f (g b.head xs) = k b.head (mapBlocksAll f xs)) :
    mapBlocksAll f (mapBlocksAll g ns) = mapBlocksAll k ns := by
  induction ns using forest_induction with
  | nil => rfl
  | leaf n ns hn ih =>
    rw [forall_mem_blocksAll_leaf hn] at h
    simp [mapBlocks_leaf hn, ih h]
  | frame F inner ns ihi ih =>
    rw [forall_mem_blocksAll_framed] at h
    simp [ihi h.1, ih h.2]
  | block c inner ns ihi ih =>
    rw [forall_mem_blocksAll_block] at h
    simp [ihi h.2.1, ih h.2.2, h.1]

/-- A pass that puts every block back changes nothing. -/
theorem mapBlocksAll_eq_self {f : BlockHead → List Node → Node} {ns : List Node}
    (h : ∀ b ∈ blocksAll ns, f b.head b.nodes = .block b.head b.nodes) :
    mapBlocksAll f ns = ns := by
  induction ns using forest_induction with
  | nil => rfl
  | leaf n ns hn ih =>
    rw [forall_mem_blocksAll_leaf hn] at h
    simp [mapBlocks_leaf hn, ih h]
  | frame F inner ns ihi ih =>
    rw [forall_mem_blocksAll_framed] at h
    simp [ihi h.1, ih h.2]
  | block k inner ns ihi ih =>
    rw [forall_mem_blocksAll_block] at h
    simp [ihi h.2.1, ih h.2.2, h.1]

end Node
end Templating
