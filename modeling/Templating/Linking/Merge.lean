import Templating.Linking.Registry

/-!
# Merging

The named blocks of an inheriting document are applied to the blocks of its parent: to every
block declared under the name, and to the ancestors those were merged into. A block inside one
of the same name is not applied by itself; it is marked, and goes along with the content of the
outer one.
-/

namespace Templating

/-- The content of a block overridden in a mode. -/
def Mode.combine (mode : Mode) (own override : List Node) : List Node :=
  match mode with
  | .replace => override
  | .append => own ++ override
  | .prepend => override ++ own

namespace Node

mutual

/-- Override the blocks of a node whose ids are among `targets`, innermost first. -/
def amend (targets : List BlockId) (mode : Mode) (content : List Node) : Node → Node
  | .group ⟨ns, p⟩ => .group ⟨amendAll targets mode content ns, p⟩
  | .block h ns =>
    let ns := amendAll targets mode content ns
    match h.id with
    | some id => if id ∈ targets then .block h (mode.combine ns content) else .block h ns
    | none => .block h ns
  | .includes f d (some ⟨ns, p⟩) q =>
    .includes f d (some ⟨amendAll targets mode content ns, p⟩) q
  | .mixin h (some ⟨ns, p⟩) => .mixin h (some ⟨amendAll targets mode content ns, p⟩)
  | .filter u ⟨ns, p⟩ => .filter u ⟨amendAll targets mode content ns, p⟩
  | .tag h ⟨ns, p⟩ => .tag h ⟨amendAll targets mode content ns, p⟩
  | n => n
  termination_by structural n => n

/-- Override the blocks of several nodes. -/
def amendAll (targets : List BlockId) (mode : Mode) (content : List Node) :
    List Node → List Node
  | [] => []
  | n :: ns => amend targets mode content n :: amendAll targets mode content ns
  termination_by structural ns => ns

end

end Node

/-- A parent document under the overrides of a child, and the child's registry. -/
structure Merging where
  parent : List Node
  lineage : Registry

mutual

/-- Apply the blocks of a node of the child. `blocks` is the registry of the parent, `active`
holds the names of the blocks around the node. -/
def mergeNode (blocks : Registry) (active : List String) : Node → Merging → Node × Merging
  | .block h ns, m =>
    if h.name ∈ active then
      let (ns, m) := mergeAll blocks active ns m
      (.block { h with ignored := true } ns, m)
    else
      match blocks.flatten (blocks.get h.name) with
      | [] =>
        let (ns, m) := mergeAll blocks (h.name :: active) ns m
        (.block h ns, m)
      | t :: ts =>
        let targets := t :: ts
        let m :=
          match h.id with
          | some id => { m with lineage := m.lineage.record id targets }
          | none => m
        let (ns, m) := mergeAll blocks (h.name :: active) ns m
        (.block { h with parents := some targets } ns,
          { m with parent := Node.amendAll targets h.mode ns m.parent })
  | .group ⟨ns, p⟩, m =>
    let (ns, m) := mergeAll blocks active ns m
    (.group ⟨ns, p⟩, m)
  | .includes f d (some ⟨ns, p⟩) q, m =>
    let (ns, m) := mergeAll blocks active ns m
    (.includes f d (some ⟨ns, p⟩) q, m)
  | .mixin h (some ⟨ns, p⟩), m =>
    let (ns, m) := mergeAll blocks active ns m
    (.mixin h (some ⟨ns, p⟩), m)
  | .filter u ⟨ns, p⟩, m =>
    let (ns, m) := mergeAll blocks active ns m
    (.filter u ⟨ns, p⟩, m)
  | .tag h ⟨ns, p⟩, m =>
    let (ns, m) := mergeAll blocks active ns m
    (.tag h ⟨ns, p⟩, m)
  | n, m => (n, m)
  termination_by structural n => n

/-- Apply the blocks of several nodes of the child, one node after another. -/
def mergeAll (blocks : Registry) (active : List String) :
    List Node → Merging → List Node × Merging
  | [], m => ([], m)
  | n :: ns, m =>
    let (n, m) := mergeNode blocks active n m
    let (ns, m) := mergeAll blocks active ns m
    (n :: ns, m)
  termination_by structural ns => ns

end

end Templating
