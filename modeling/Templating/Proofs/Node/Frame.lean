import Templating.Linking

/-!
# Frames

A node that is no named block either carries a sequence of nodes or is a leaf. A frame is a node
of the first kind without its sequence. The passes over a tree treat all frames alike, so each of
them has one equation for frames and one for leaves, and statements about sequences of nodes are
proved by induction on leaves, frames and named blocks.
-/

namespace Templating

/-- A node that carries a sequence of nodes and is no named block, without the sequence. -/
inductive Frame where
  | group (position : Position)
  | includes (file : Reference) (document : Option Node) (body position : Position)
  | mixin (head : MixinHead) (body : Position)
  | filter (use : FilterUse) (body : Position)
  | tag (head : TagHead) (body : Position)

namespace Node

/-- The node with a frame and a sequence. -/
def framed : Frame → List Node → Node
  | .group p, ns => .group ⟨ns, p⟩
  | .includes f d p q, ns => .includes f d (some ⟨ns, p⟩) q
  | .mixin h p, ns => .mixin h (some ⟨ns, p⟩)
  | .filter u p, ns => .filter u ⟨ns, p⟩
  | .tag h p, ns => .tag h ⟨ns, p⟩

/-- The node carries no sequence. -/
def isLeaf : Node → Bool
  | .inherits .. => true
  | .includes _ _ none _ => true
  | .includesRaw .. => true
  | .mixin _ none => true
  | .yield _ => true
  | .text .. => true
  | _ => false

/-- Induction on sequences of nodes. -/
@[elab_as_elim]
theorem forest_induction {motive : List Node → Prop} (nil : motive [])
    (leaf : ∀ n ns, isLeaf n → motive ns → motive (n :: ns))
    (frame : ∀ F inner ns, motive inner → motive ns → motive (framed F inner :: ns))
    (block : ∀ h inner ns, motive inner → motive ns → motive (.block h inner :: ns)) :
    ∀ ns, motive ns
  | [] => nil
  | n :: ns => by
    have rest := forest_induction nil leaf frame block ns
    match n with
    | .group ⟨inner, p⟩ =>
      exact frame (.group p) inner ns (forest_induction nil leaf frame block inner) rest
    | .block h inner => exact block h inner ns (forest_induction nil leaf frame block inner) rest
    | .includes f d (some ⟨inner, p⟩) q =>
      exact frame (.includes f d p q) inner ns (forest_induction nil leaf frame block inner) rest
    | .mixin h (some ⟨inner, p⟩) =>
      exact frame (.mixin h p) inner ns (forest_induction nil leaf frame block inner) rest
    | .filter u ⟨inner, p⟩ =>
      exact frame (.filter u p) inner ns (forest_induction nil leaf frame block inner) rest
    | .tag h ⟨inner, p⟩ =>
      exact frame (.tag h p) inner ns (forest_induction nil leaf frame block inner) rest
    | .inherits f d p => exact leaf _ ns rfl rest
    | .includes f d none p => exact leaf _ ns rfl rest
    | .includesRaw f d us p => exact leaf _ ns rfl rest
    | .mixin h none => exact leaf _ ns rfl rest
    | .yield p => exact leaf _ ns rfl rest
    | .text v p => exact leaf _ ns rfl rest
  termination_by ns => sizeOf ns

/-- Case distinction on leaves. -/
@[elab_as_elim]
theorem leaf_cases {motive : (n : Node) → isLeaf n → Prop}
    (inherits : ∀ f d p, motive (.inherits f d p) rfl)
    (includes : ∀ f d p, motive (.includes f d none p) rfl)
    (includesRaw : ∀ f d us p, motive (.includesRaw f d us p) rfl)
    (mixin : ∀ h, motive (.mixin h none) rfl)
    (yield : ∀ p, motive (.yield p) rfl)
    (text : ∀ v p, motive (.text v p) rfl) : ∀ n h, motive n h
  | .inherits f d p, _ => inherits f d p
  | .includes f d none p, _ => includes f d p
  | .includesRaw f d us p, _ => includesRaw f d us p
  | .mixin h none, _ => mixin h
  | .yield p, _ => yield p
  | .text v p, _ => text v p

end Node
end Templating
