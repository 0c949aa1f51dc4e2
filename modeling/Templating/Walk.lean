import Templating.Node

/-!
# Walks

A walk meets every node of a tree twice, before and after its children, and lets a visitor
decide what becomes of it. The visitor has a state of its own, may change the node in place, and
may stop the walk; the tree is then left as it stands.

A visitor that puts new nodes in place before they are entered can keep a walk going for ever,
so a walk goes down to a given depth and has no answer (`none`) when that is not enough. A deeper
bound changes no answer that is there.
-/

namespace Templating

/-- What a visitor decides. -/
inductive Visit where
  /-- Go on: to the children, or past the node. -/
  | proceed
  /-- Leave the children alone, and meet the node no more. Behind the children: go on. -/
  | skip
  /-- Put another node in place. Its children are not entered, but it is met afterwards. -/
  | replace (node : Node)
  /-- Take the node out of its sequence. -/
  | remove

/-- A meeting of a visitor and a node: the visitor's state and the node afterwards, and the
decision, or why the walk stops. -/
structure Meeting (σ ε : Type) where
  state : σ
  node : Node
  decision : Except ε Visit

/-- A visitor with states `σ` and reasons to stop `ε`. -/
structure Visitor (σ ε : Type) where
  before : σ → Node → Meeting σ ε
  after : σ → Node → Meeting σ ε

/-- What becomes of a node in a walk. -/
inductive Fate (ε : Type) where
  | kept (node : Node)
  /-- Taken out, as it last stood. -/
  | removed (node : Node)
  /-- The walk stopped in it. -/
  | stopped (node : Node) (reason : ε)

namespace Walk

variable {σ ε : Type}

/-- What a walk leaves behind: the visitor's state, the tree, and why it stopped, if it did. -/
structure Trail (σ ε α : Type) where
  state : σ
  left : α
  stopped : Option ε

/-- Walk one node after another. -/
def siblings (one : σ → Node → Option (σ × Fate ε)) :
    σ → List Node → Option (Trail σ ε (List Node))
  | s, [] => some ⟨s, [], none⟩
  | s, n :: ns =>
    match one s n with
    | none => none
    | some (s, .kept n) =>
      (siblings one s ns).map fun t => { t with left := n :: t.left }
    | some (s, .removed _) => siblings one s ns
    | some (s, .stopped n reason) => some ⟨s, n :: ns, some reason⟩

/-- Walk the root of a tree. A root that is taken out leaves an empty group in its place. -/
def root (one : σ → Node → Option (σ × Fate ε)) (s : σ) (n : Node) : Option (Trail σ ε Node) :=
  (one s n).map fun
    | (s, .kept n) => ⟨s, n, none⟩
    | (s, .removed n) => ⟨s, .group ⟨[], n.position⟩, none⟩
    | (s, .stopped n reason) => ⟨s, n, some reason⟩

/-- Walk a loaded document, if it is there and to be followed. -/
def document (one : σ → Node → Option (σ × Fate ε)) (follow : Bool) (s : σ) :
    Option Node → Option (Trail σ ε (Option Node))
  | some d =>
    if follow then (root one s d).map fun t => ⟨t.state, some t.left, t.stopped⟩
    else some ⟨s, some d, none⟩
  | none => some ⟨s, none, none⟩

/-- Walk a nested sequence, if it is there. -/
def body (one : σ → Node → Option (σ × Fate ε)) (s : σ) :
    Option Block → Option (Trail σ ε (Option Block))
  | some b => (siblings one s b.nodes).map fun t =>
    ⟨t.state, some { b with nodes := t.left }, t.stopped⟩
  | none => some ⟨s, none, none⟩

/-- Walk the children of a node. The loaded documents of references are children too when they
are followed; an include's document comes before its nested sequence. -/
def children (one : σ → Node → Option (σ × Fate ε)) (follow : Bool) (s : σ) :
    Node → Option (Trail σ ε Node)
  | .group b => (siblings one s b.nodes).map fun t =>
    ⟨t.state, .group { b with nodes := t.left }, t.stopped⟩
  | .block h ns => (siblings one s ns).map fun t => ⟨t.state, .block h t.left, t.stopped⟩
  | .inherits f d p => (document one follow s d).map fun t =>
    ⟨t.state, .inherits f t.left p, t.stopped⟩
  | .includes f d b p =>
    match document one follow s d with
    | none => none
    | some ⟨s, d, some reason⟩ => some ⟨s, .includes f d b p, some reason⟩
    | some ⟨s, d, none⟩ => (body one s b).map fun t =>
      ⟨t.state, .includes f d t.left p, t.stopped⟩
  | .includesRaw f d filters p => (document one follow s d).map fun t =>
    ⟨t.state, .includesRaw f t.left filters p, t.stopped⟩
  | .mixin h b => (body one s b).map fun t => ⟨t.state, .mixin h t.left, t.stopped⟩
  | .filter u b => (siblings one s b.nodes).map fun t =>
    ⟨t.state, .filter u { b with nodes := t.left }, t.stopped⟩
  | .tag h b => (siblings one s b.nodes).map fun t =>
    ⟨t.state, .tag h { b with nodes := t.left }, t.stopped⟩
  | .yield p => some ⟨s, .yield p, none⟩
  | .text v p => some ⟨s, .text v p, none⟩

/-- Meet a node behind its children. -/
def leave (v : Visitor σ ε) (s : σ) (n : Node) : σ × Fate ε :=
  let m := v.after s n
  match m.decision with
  | .error reason => (m.state, .stopped m.node reason)
  | .ok .remove => (m.state, .removed m.node)
  | .ok (.replace r) => (m.state, .kept r)
  | .ok _ => (m.state, .kept m.node)

/-- Walk a node, entering at most `depth` levels. -/
def visit (v : Visitor σ ε) (follow : Bool) : Nat → σ → Node → Option (σ × Fate ε)
  | 0, _, _ => none
  | depth + 1, s, n =>
    let m := v.before s n
    match m.decision with
    | .error reason => some (m.state, .stopped m.node reason)
    | .ok .remove => some (m.state, .removed m.node)
    | .ok .skip => some (m.state, .kept m.node)
    | .ok (.replace r) => some (leave v m.state r)
    | .ok .proceed =>
      match children (visit v follow depth) follow m.state m.node with
      | none => none
      | some ⟨s, n, some reason⟩ => some (s, .stopped n reason)
      | some ⟨s, n, none⟩ => some (leave v s n)

end Walk

/-- Walk a tree. `follow` tells whether to enter loaded documents. -/
def Node.walk {σ ε : Type} (v : Visitor σ ε) (follow : Bool) (depth : Nat) (s : σ) (n : Node) :
    Option (Walk.Trail σ ε Node) :=
  Walk.root (Walk.visit v follow depth) s n

/-- Walk a sequence of nodes. -/
def Node.walkAll {σ ε : Type} (v : Visitor σ ε) (follow : Bool) (depth : Nat) (s : σ)
    (ns : List Node) : Option (Walk.Trail σ ε (List Node)) :=
  Walk.siblings (Walk.visit v follow depth) s ns

end Templating
