import Templating.Node

/-!
# Listings

The nodes of a tree in document order, every node before its children; and how deep a tree is.
Loaded documents belong to the tree, each before the nested sequence of its include.
-/

namespace Templating.Node

mutual

/-- A node and all nodes inside it. -/
def listing : Node → List Node
  | .group ⟨ns, p⟩ => .group ⟨ns, p⟩ :: listingAll ns
  | .block h ns => .block h ns :: listingAll ns
  | .inherits f d p => .inherits f d p :: listingDocument d
  | .includes f d b p => .includes f d b p :: (listingDocument d ++ listingBody b)
  | .includesRaw f d us p => .includesRaw f d us p :: listingDocument d
  | .mixin h b => .mixin h b :: listingBody b
  | .filter u ⟨ns, p⟩ => .filter u ⟨ns, p⟩ :: listingAll ns
  | .tag h ⟨ns, p⟩ => .tag h ⟨ns, p⟩ :: listingAll ns
  | n => [n]
  termination_by structural n => n

/-- Several nodes and all nodes inside them. -/
def listingAll : List Node → List Node
  | [] => []
  | n :: ns => listing n ++ listingAll ns
  termination_by structural ns => ns

/-- The nodes of a loaded document. -/
def listingDocument : Option Node → List Node
  | none => []
  | some d => listing d
  termination_by structural d => d

/-- The nodes of a nested sequence. -/
def listingBody : Option (Body Node) → List Node
  | none => []
  | some ⟨ns, _⟩ => listingAll ns
  termination_by structural b => b

end

mutual

/-- The number of levels of a tree. -/
def levels : Node → Nat
  | .group ⟨ns, _⟩ => levelsAll ns + 1
  | .block _ ns => levelsAll ns + 1
  | .inherits _ d _ => levelsDocument d + 1
  | .includes _ d b _ => max (levelsDocument d) (levelsBody b) + 1
  | .includesRaw _ d _ _ => levelsDocument d + 1
  | .mixin _ b => levelsBody b + 1
  | .filter _ ⟨ns, _⟩ => levelsAll ns + 1
  | .tag _ ⟨ns, _⟩ => levelsAll ns + 1
  | _ => 1
  termination_by structural n => n

/-- The number of levels of the deepest of several trees. -/
def levelsAll : List Node → Nat
  | [] => 0
  | n :: ns => max (levels n) (levelsAll ns)
  termination_by structural ns => ns

/-- The number of levels of a loaded document. -/
def levelsDocument : Option Node → Nat
  | none => 0
  | some d => levels d
  termination_by structural d => d

/-- The number of levels of a nested sequence. -/
def levelsBody : Option (Body Node) → Nat
  | none => 0
  | some ⟨ns, _⟩ => levelsAll ns
  termination_by structural b => b

end

end Templating.Node
