import Templating.Node.Listing
import Templating.Walk

/-!
# Walks by rules

A visitor that follows a list of rules: at each meeting the first rule that fits the node is
applied. It keeps a trace of all meetings.
-/

namespace Templating

/-- The moment of a meeting. -/
inductive Moment where
  | before
  | after
  deriving DecidableEq, Repr

/-- What a rule does with a node. -/
inductive RuleAction where
  | proceed
  | skip
  | remove
  | replace (node : Node)
  /-- Put a node in place and go on into it. -/
  | overwrite (node : Node)
  /-- Stop the walk. -/
  | stop

/-- What to do with nodes of a kind and a name, or of any. -/
structure WalkRule where
  moment : Moment
  kind : Option String
  name : Option String
  action : RuleAction

/-- The name by which rules tell a node: its own, the path it refers to, or its text. -/
def Node.label : Node → String
  | .text v _ => v
  | .block h _ => h.name
  | .mixin h _ => h.name
  | .filter u _ => u.name
  | .tag h _ => h.name
  | .inherits f _ _ => f.path
  | .includes f _ _ _ => f.path
  | .includesRaw f _ _ _ => f.path
  | .group _ => ""
  | .yield _ => ""

/-- The kind and the name of a node. -/
def Node.title (n : Node) : String := n.kind ++ ":" ++ n.label

namespace WalkRule

/-- The rule is made for the node. -/
def fits (r : WalkRule) (moment : Moment) (n : Node) : Bool :=
  r.moment == moment && r.kind.all (· == n.kind) && r.name.all (· == n.label)

/-- What the rules make of a node at a moment, with the trace grown by the meeting. -/
def meet (rules : List WalkRule) (moment : Moment) (trace : List String) (n : Node) :
    Meeting (List String) String :=
  let sign := match moment with
    | .before => "+"
    | .after => "-"
  let trace := trace ++ [sign ++ n.title]
  match (rules.find? fun r => r.fits moment n).map WalkRule.action with
  | some .skip => ⟨trace, n, .ok .skip⟩
  | some .remove => ⟨trace, n, .ok .remove⟩
  | some (.replace m) => ⟨trace, n, .ok (.replace m)⟩
  | some (.overwrite m) => ⟨trace, m, .ok .proceed⟩
  | some .stop => ⟨trace, n, .error ("stop at " ++ n.title)⟩
  | _ => ⟨trace, n, .ok .proceed⟩

/-- A meeting that changes nothing and leaves no trace. -/
def pass (trace : List String) (n : Node) : Meeting (List String) String :=
  ⟨trace, n, .ok .proceed⟩

/-- The visitor that follows rules, at one moment only if that is asked for. -/
def visitor (rules : List WalkRule) (only : Option Moment) : Visitor (List String) String :=
  { before := if only = some .after then pass else meet rules .before
    after := if only = some .before then pass else meet rules .after }

/-- The levels of the node that a rule puts in place. -/
def levels (r : WalkRule) : Nat :=
  match r.action with
  | .replace n => n.levels
  | .overwrite n => n.levels
  | _ => 0

/-- A depth that is enough for a walk by rules, unless it goes on for ever: on the way down
every rule can put its node in place once. -/
def depthFor (rules : List WalkRule) (n : Node) : Nat :=
  rules.foldr (fun r depth => r.levels + 1 + depth) n.levels

/-- Walk a tree by rules. The trace is the state that is left. -/
def walk (rules : List WalkRule) (only : Option Moment) (follow : Bool) (n : Node) :
    Option (Walk.Trail (List String) String Node) :=
  n.walk (visitor rules only) follow (depthFor rules n) []

/-- Walk the nodes of a group by rules, without meeting the group; other trees are walked whole. -/
def walkInside (rules : List WalkRule) (only : Option Moment) (follow : Bool) (n : Node) :
    Option (Walk.Trail (List String) String Node) :=
  match n with
  | .group b =>
    (Node.walkAll (visitor rules only) follow (depthFor rules n) [] b.nodes).map fun t =>
      ⟨t.state, .group { b with nodes := t.left }, t.stopped⟩
  | _ => walk rules only follow n

end WalkRule

end Templating
