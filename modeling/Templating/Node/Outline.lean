import Templating.Node
import Templating.Text.Quoted

/-!
# Outline and text of a document

Two views of linked nodes: an indented outline with a line for every node, and the text that the
nodes show. Neither looks into loaded documents.
-/

namespace Templating

/-- Two spaces for each level. -/
def indent (depth : Nat) : String := String.ofList (List.replicate (2 * depth) ' ')

namespace Node

/-- The outline line of a node, without its indentation. -/
def headline : Node → String
  | .group _ => "block"
  | .block h _ =>
    "block " ++ h.name ++ " (" ++ h.mode.text ++ ")" ++ if h.ignored then " ignored" else ""
  | .inherits f _ _ => "extends " ++ Text.quoted f.path
  | .includes f _ _ _ => "include " ++ Text.quoted f.path
  | .includesRaw f _ filters _ =>
    "include" ++ String.join (filters.map fun u => ":" ++ u.name) ++ " " ++ Text.quoted f.path
  | .mixin h _ =>
    (if h.isCall then "+" else "mixin ") ++ h.name ++
      match h.args with
      | some a => "(" ++ a ++ ")"
      | none => ""
  | .filter u _ => ":" ++ u.name
  | .yield _ => "yield"
  | .text v _ => "text " ++ Text.quoted v
  | .tag h _ => h.name ++ if h.textOnly then "." else ""

mutual

/-- The outline lines of a node at a depth. -/
def outlineLines (depth : Nat) : Node → List String
  | .group ⟨ns, p⟩ => (indent depth ++ headline (.group ⟨ns, p⟩)) :: outlineAll (depth + 1) ns
  | .block h ns => (indent depth ++ headline (.block h ns)) :: outlineAll (depth + 1) ns
  | .includes f d (some ⟨ns, p⟩) q =>
    (indent depth ++ headline (.includes f d (some ⟨ns, p⟩) q)) :: outlineAll (depth + 1) ns
  | .mixin h (some ⟨ns, p⟩) =>
    (indent depth ++ headline (.mixin h (some ⟨ns, p⟩))) :: outlineAll (depth + 1) ns
  | .filter u ⟨ns, p⟩ =>
    (indent depth ++ headline (.filter u ⟨ns, p⟩)) :: outlineAll (depth + 1) ns
  | .tag h ⟨ns, p⟩ => (indent depth ++ headline (.tag h ⟨ns, p⟩)) :: outlineAll (depth + 1) ns
  | n => [indent depth ++ headline n]
  termination_by structural n => n

/-- The outline lines of nodes at a depth. -/
def outlineAll (depth : Nat) : List Node → List String
  | [] => []
  | n :: ns => outlineLines depth n ++ outlineAll depth ns
  termination_by structural ns => ns

end

/-- The outline of nodes, every line ended. -/
def outline (ns : List Node) : String := String.join ((outlineAll 0 ns).map (· ++ "\n"))

mutual

/-- The text a node shows. A mixin definition shows nothing. -/
def shownText : Node → String
  | .text v _ => v
  | .group ⟨ns, _⟩ => shownTextAll ns
  | .block _ ns => shownTextAll ns
  | .mixin h (some ⟨ns, _⟩) => if h.isCall then shownTextAll ns else ""
  | .filter _ ⟨ns, _⟩ => shownTextAll ns
  | .tag _ ⟨ns, _⟩ => shownTextAll ns
  | .includes _ _ (some ⟨ns, _⟩) _ => shownTextAll ns
  | _ => ""
  termination_by structural n => n

/-- The text that nodes show, in document order. -/
def shownTextAll : List Node → String
  | [] => ""
  | n :: ns => shownText n ++ shownTextAll ns
  termination_by structural ns => ns

end

end Node

end Templating
