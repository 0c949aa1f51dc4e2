import Templating.Error
import Templating.Linking.Merge
import Templating.Linking.Yield

/-!
# Linking

A loaded document becomes one tree without references. Includes are replaced by their linked
documents; the blocks of an inheriting document are merged into its linked parent, whose nodes
follow the mixin definitions of the child. Named blocks are numbered in one sequence: those of a
document before those of its parent.
-/

namespace Templating

/-- A linked document. -/
structure Linked where
  root : Block
  declared : Registry
  /-- The document was merged into a parent. -/
  inherits : Bool

namespace Node

mutual

/-- The position of the first inherit statement inside a node. -/
def firstInherit : Node → Option Position
  | .inherits _ _ p => some p
  | .group ⟨ns, _⟩ => firstInheritAll ns
  | .block _ ns => firstInheritAll ns
  | .includes _ _ (some ⟨ns, _⟩) _ => firstInheritAll ns
  | .mixin _ (some ⟨ns, _⟩) => firstInheritAll ns
  | .filter _ ⟨ns, _⟩ => firstInheritAll ns
  | .tag _ ⟨ns, _⟩ => firstInheritAll ns
  | _ => none
  termination_by structural n => n

/-- The position of the first inherit statement inside nodes. -/
def firstInheritAll : List Node → Option Position
  | [] => none
  | n :: ns => (firstInherit n).or (firstInheritAll ns)
  termination_by structural ns => ns

end

mutual

/-- Turn the named blocks inside a node into groups, which nothing can override. -/
def dissolve : Node → Node
  | .block h ns => .group ⟨dissolveAll ns, h.position⟩
  | .group ⟨ns, p⟩ => .group ⟨dissolveAll ns, p⟩
  | .includes f d (some ⟨ns, p⟩) q => .includes f d (some ⟨dissolveAll ns, p⟩) q
  | .mixin h (some ⟨ns, p⟩) => .mixin h (some ⟨dissolveAll ns, p⟩)
  | .filter u ⟨ns, p⟩ => .filter u ⟨dissolveAll ns, p⟩
  | .tag h ⟨ns, p⟩ => .tag h ⟨dissolveAll ns, p⟩
  | n => n
  termination_by structural n => n

/-- Turn the named blocks inside nodes into groups. -/
def dissolveAll : List Node → List Node
  | [] => []
  | n :: ns => dissolve n :: dissolveAll ns
  termination_by structural ns => ns

end

mutual

/-- Names of the blocks inside a node. -/
def blockNames : Node → List String
  | .block h ns => h.name :: blockNamesAll ns
  | .group ⟨ns, _⟩ => blockNamesAll ns
  | .includes _ _ (some ⟨ns, _⟩) _ => blockNamesAll ns
  | .mixin _ (some ⟨ns, _⟩) => blockNamesAll ns
  | .filter _ ⟨ns, _⟩ => blockNamesAll ns
  | .tag _ ⟨ns, _⟩ => blockNamesAll ns
  | _ => []
  termination_by structural n => n

/-- Names of the blocks inside nodes, in document order. -/
def blockNamesAll : List Node → List String
  | [] => []
  | n :: ns => blockNames n ++ blockNamesAll ns
  termination_by structural ns => ns

end

mutual

/-- Number the blocks inside a node that have no number, from the one after `last` on, and
register those in replace mode. -/
def declare : Node → BlockId × Registry → Node × (BlockId × Registry)
  | .block h ns, (last, r) =>
    let (id, last) :=
      match h.id with
      | some id => (id, last)
      | none => (last + 1, last + 1)
    let r := if h.mode = .replace then r.register h.name id else r
    let (ns, s) := declareAll ns (last, r)
    (.block { h with id := some id } ns, s)
  | .group ⟨ns, p⟩, s =>
    let (ns, s) := declareAll ns s
    (.group ⟨ns, p⟩, s)
  | .includes f d (some ⟨ns, p⟩) q, s =>
    let (ns, s) := declareAll ns s
    (.includes f d (some ⟨ns, p⟩) q, s)
  | .mixin h (some ⟨ns, p⟩), s =>
    let (ns, s) := declareAll ns s
    (.mixin h (some ⟨ns, p⟩), s)
  | .filter u ⟨ns, p⟩, s =>
    let (ns, s) := declareAll ns s
    (.filter u ⟨ns, p⟩, s)
  | .tag h ⟨ns, p⟩, s =>
    let (ns, s) := declareAll ns s
    (.tag h ⟨ns, p⟩, s)
  | n, s => (n, s)
  termination_by structural n => n

/-- Number and register the blocks inside nodes, in document order. -/
def declareAll : List Node → BlockId × Registry → List Node × (BlockId × Registry)
  | [], s => ([], s)
  | n :: ns, s =>
    let (n, s) := declare n s
    let (ns, s) := declareAll ns s
    (n :: ns, s)
  termination_by structural ns => ns

end

mutual

/-- The named blocks that a node puts at the top of an inheriting document. -/
def overrides : Node → Except TemplateError (List (String × Position))
  | .block h _ => .ok [(h.name, h.position)]
  | .group ⟨ns, _⟩ => overridesAll ns
  | .mixin h b =>
    if h.isCall then .error (.structural .strayNodes (Node.mixin h b).position) else .ok []
  | n => .error (.structural .strayNodes n.position)
  termination_by structural n => n

/-- The named blocks at the top of an inheriting document. Apart from them there can be only
mixin definitions. -/
def overridesAll : List Node → Except TemplateError (List (String × Position))
  | [] => .ok []
  | n :: ns =>
    match overrides n with
    | .error e => .error e
    | .ok found =>
      match overridesAll ns with
      | .error e => .error e
      | .ok others => .ok (found ++ others)
  termination_by structural ns => ns

end

mutual

/-- The mixin definitions that a node puts at the top of a document. -/
def topMixins : Node → List Node
  | .group ⟨ns, _⟩ => topMixinsAll ns
  | n => if n.isMixinDefinition then [n] else []
  termination_by structural n => n

/-- The mixin definitions at the top of a document, in order. -/
def topMixinsAll : List Node → List Node
  | [] => []
  | n :: ns => topMixins n ++ topMixinsAll ns
  termination_by structural ns => ns

end

end Node

/-- Only the first statement of a document may inherit; `ns` are the others. -/
def checkInherits (ns : List Node) : Except TemplateError Unit :=
  match Node.firstInheritAll ns with
  | some p => .error (.structural .inheritNotFirst p)
  | none => .ok ()

/-- Merge a child document into its linked parent. `overrides` are the blocks at the top of the
child, each of which has to be found in the result. -/
def Linked.inherit (parent : Linked) (child : List Node) (declared : Registry)
    (overrides : List (String × Position)) : Except TemplateError Linked :=
  let (child, m) := mergeAll parent.declared [] child ⟨parent.root.nodes, declared⟩
  let names := Node.blockNamesAll m.parent
  match overrides.find? fun o => o.1 ∉ names with
  | some (name, p) => .error (.structural (.unexpectedBlock name) p)
  | none =>
    .ok
      { root := { parent.root with nodes := Node.topMixinsAll child ++ m.parent }
        declared := parent.declared.overlay m.lineage
        inherits := true }

/-- A text without carriage returns. -/
def withoutReturns (s : String) : String := String.ofList (s.toList.filter (· ≠ '\r'))

/-- A linking: it draws block numbers. The state is the last number drawn. -/
abbrev Link (α : Type) : Type := StateT BlockId (Except TemplateError) α

/-- Number and register the blocks of a document. -/
def declareBlocks (ns : List Node) : Link (List Node × Registry) := fun last =>
  let (ns, last, r) := Node.declareAll ns (last, .empty)
  .ok ((ns, r), last)

mutual

/-- Link a loaded document. -/
def linkNode : Node → Link Linked
  | .group ⟨.inherits f d q :: rest, _⟩ => do
    checkInherits rest
    let ns ← expandAll rest
    let (ns, declared) ← declareBlocks ns
    let overrides ← Node.overridesAll ns
    match d with
    | none => throw (.unloaded .inherits f.path q)
    | some d =>
      let parent ← linkNode d
      parent.inherit ns declared overrides
  | .group ⟨ns, p⟩ => do
    checkInherits ns
    let ns ← expandAll ns
    let (ns, declared) ← declareBlocks ns
    pure ⟨⟨ns, p⟩, declared, false⟩
  | n => throw (.notABlock n.kind)
  termination_by structural n => n

/-- Replace the includes inside a node. An include becomes a group: its linked document, with the
content of the include site taken in. The blocks of a document that inherits are dissolved
before. -/
def expand : Node → Link Node
  | .group ⟨ns, p⟩ => do
    let ns ← expandAll ns
    pure (.group ⟨ns, p⟩)
  | .block h ns => do
    let ns ← expandAll ns
    pure (.block h ns)
  | .includes f d b p => do
    let b ← expandBody b
    match d with
    | none => throw (.unloaded .includes f.path p)
    | some d =>
      let linked ← linkNode d
      let root : Block :=
        if linked.inherits then { linked.root with nodes := Node.dissolveAll linked.root.nodes }
        else linked.root
      pure (.group (root.takeIn b))
  | .includesRaw f _ _ p =>
    match f.text with
    | some text => pure (.text (withoutReturns text) p)
    | none => throw (.unloaded .includesRaw f.path p)
  | .mixin h b => do
    let b ← expandBody b
    pure (.mixin h b)
  | .filter u ⟨ns, p⟩ => do
    let ns ← expandAll ns
    pure (.filter u ⟨ns, p⟩)
  | .tag h ⟨ns, p⟩ => do
    let ns ← expandAll ns
    pure (.tag h ⟨ns, p⟩)
  | n => pure n
  termination_by structural n => n

/-- Replace the includes inside nodes. -/
def expandAll : List Node → Link (List Node)
  | [] => pure []
  | n :: ns => do
    let n ← expand n
    let ns ← expandAll ns
    pure (n :: ns)
  termination_by structural ns => ns

/-- Replace the includes inside a nested sequence. -/
def expandBody : Option Block → Link (Option Block)
  | none => pure none
  | some ⟨ns, p⟩ => do
    let ns ← expandAll ns
    pure (some ⟨ns, p⟩)
  termination_by structural b => b

end

/-- Link a loaded document, numbering its blocks from 1. -/
def link (n : Node) : Except TemplateError Linked := (linkNode n).run' 0

end Templating
