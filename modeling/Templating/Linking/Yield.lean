import Templating.Node

/-!
# Yield points

The content of an include site goes to the yield points of the included document. A document
without one takes the content at its default place: behind the last node of the innermost
container that is reached by entering, again and again, the last node that is a group or carries
a nested sequence with nodes. Tags of plain text are never entered.
-/

namespace Templating

namespace Node

mutual

/-- A node is a yield point or holds one. -/
def hasYield : Node → Bool
  | .yield _ => true
  | .group ⟨ns, _⟩ => hasYieldAll ns
  | .block _ ns => hasYieldAll ns
  | .includes _ _ (some ⟨ns, _⟩) _ => hasYieldAll ns
  | .mixin _ (some ⟨ns, _⟩) => hasYieldAll ns
  | .filter _ ⟨ns, _⟩ => hasYieldAll ns
  | .tag _ ⟨ns, _⟩ => hasYieldAll ns
  | _ => false
  termination_by structural n => n

/-- Some of the nodes is a yield point or holds one. -/
def hasYieldAll : List Node → Bool
  | [] => false
  | n :: ns => hasYield n || hasYieldAll ns
  termination_by structural ns => ns

end

mutual

/-- Put content at the yield points of a node. The content stands in a group of its own where
the yield point stood; yield points in the content stay. -/
def fillYields (content : Block) : Node → Node
  | .yield p => .group ⟨[.group content], p⟩
  | .group ⟨ns, p⟩ => .group ⟨fillYieldsAll content ns, p⟩
  | .block h ns => .block h (fillYieldsAll content ns)
  | .includes f d (some ⟨ns, p⟩) q => .includes f d (some ⟨fillYieldsAll content ns, p⟩) q
  | .mixin h (some ⟨ns, p⟩) => .mixin h (some ⟨fillYieldsAll content ns, p⟩)
  | .filter u ⟨ns, p⟩ => .filter u ⟨fillYieldsAll content ns, p⟩
  | .tag h ⟨ns, p⟩ => .tag h ⟨fillYieldsAll content ns, p⟩
  | n => n
  termination_by structural n => n

/-- Put content at the yield points of several nodes. -/
def fillYieldsAll (content : Block) : List Node → List Node
  | [] => []
  | n :: ns => fillYields content n :: fillYieldsAll content ns
  termination_by structural ns => ns

end

mutual

/-- Put content at the default place inside a node, if the node can be entered. -/
def enterWith (content : Block) : Node → Option Node
  | .group ⟨ns, p⟩ =>
    some (.group ⟨(placeLast content ns).getD (ns ++ [.group content]), p⟩)
  | .includes f d (some ⟨n :: ns, p⟩) q =>
    some (.includes f d
      (some ⟨(placeLast content (n :: ns)).getD (n :: ns ++ [.group content]), p⟩) q)
  | .mixin h (some ⟨n :: ns, p⟩) =>
    some (.mixin h (some ⟨(placeLast content (n :: ns)).getD (n :: ns ++ [.group content]), p⟩))
  | .filter u ⟨n :: ns, p⟩ =>
    some (.filter u ⟨(placeLast content (n :: ns)).getD (n :: ns ++ [.group content]), p⟩)
  | .tag h ⟨n :: ns, p⟩ =>
    if h.textOnly then none
    else some (.tag h ⟨(placeLast content (n :: ns)).getD (n :: ns ++ [.group content]), p⟩)
  | _ => none
  termination_by structural n => n

/-- Put content into the last node that can be entered, if there is one. -/
def placeLast (content : Block) : List Node → Option (List Node)
  | [] => none
  | n :: ns =>
    match placeLast content ns with
    | some ms => some (n :: ms)
    | none => (enterWith content n).map (· :: ns)
  termination_by structural ns => ns

end

/-- Put content at the default place. -/
def placeDefault (content : Block) (ns : List Node) : List Node :=
  (placeLast content ns).getD (ns ++ [.group content])

end Node

/-- Put the content of an include site into the included document. -/
def Block.takeIn (root : Block) (content : Option Block) : Block :=
  match content with
  | none => root
  | some c =>
    if c.nodes.isEmpty then root
    else if Node.hasYieldAll root.nodes then
      { root with nodes := Node.fillYieldsAll c root.nodes }
    else { root with nodes := Node.placeDefault c root.nodes }

end Templating
