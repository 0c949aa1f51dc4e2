import Templating.Node.Listing
import Templating.Proofs.Node.Frame

/-!
# Trees with their loaded documents

A loaded document is part of the tree that refers to it. Statements about passes that enter loaded
documents are proved by induction on nodes with the documents beside them.
-/

namespace Templating.Node

/-- The document loaded for a node. -/
def document? : Node → Option Node
  | .inherits _ d _ => d
  | .includes _ d _ _ => d
  | .includesRaw _ d _ _ => d
  | _ => none

/-- The node with another document loaded for it. -/
def setDocument (d : Option Node) : Node → Node
  | .inherits f _ p => .inherits f d p
  | .includes f _ b p => .includes f d b p
  | .includesRaw f _ us p => .includesRaw f d us p
  | n => n

theorem kind_setDocument (d : Option Node) (n : Node) : (n.setDocument d).kind = n.kind := by
  cases n <;> rfl

theorem isLeaf_setDocument (d : Option Node) {n : Node} (h : isLeaf n) :
    isLeaf (n.setDocument d) := by
  cases n, h using leaf_cases <;> rfl

theorem document?_setDocument (d : Option Node) (n : Node) :
    (n.setDocument d).document? = d ∨ (n.setDocument d).document? = none := by
  cases n <;> simp [setDocument, document?]

theorem setDocument_document? (n : Node) : n.setDocument n.document? = n := by
  cases n <;> rfl

/-- A frame keeps its sequence when its document is exchanged. -/
theorem exists_setDocument_framed (d : Option Node) (F : Frame) :
    ∃ F', ∀ ns, (framed F ns).setDocument d = framed F' ns := by
  cases F with
  | includes f _ p q => exact ⟨.includes f d p q, fun _ ↦ rfl⟩
  | group p => exact ⟨.group p, fun _ ↦ rfl⟩
  | mixin k p => exact ⟨.mixin k p, fun _ ↦ rfl⟩
  | filter u p => exact ⟨.filter u p, fun _ ↦ rfl⟩
  | tag k p => exact ⟨.tag k p, fun _ ↦ rfl⟩

/-- Induction on sequences of nodes and the documents loaded for them. -/
@[elab_as_elim]
theorem document_induction {motive : List Node → Prop} (nil : motive [])
    (cons : ∀ n ns, motive [n] → motive ns → motive (n :: ns))
    (leaf : ∀ n, isLeaf n → motive n.document?.toList → motive [n])
    (frame : ∀ F inner, motive (framed F inner).document?.toList → motive inner →
      motive [framed F inner])
    (block : ∀ h inner, motive inner → motive [.block h inner]) : ∀ ns, motive ns
  | [] => nil
  | n :: ns => by
    refine cons n ns ?_ (document_induction nil cons leaf frame block ns)
    match n with
    | .group ⟨inner, p⟩ =>
      exact frame (.group p) inner nil (document_induction nil cons leaf frame block inner)
    | .block h inner => exact block h inner (document_induction nil cons leaf frame block inner)
    | .includes f (some d) (some ⟨inner, p⟩) q =>
      exact frame (.includes f (some d) p q) inner
        (document_induction nil cons leaf frame block [d])
        (document_induction nil cons leaf frame block inner)
    | .includes f none (some ⟨inner, p⟩) q =>
      exact frame (.includes f none p q) inner nil
        (document_induction nil cons leaf frame block inner)
    | .mixin h (some ⟨inner, p⟩) =>
      exact frame (.mixin h p) inner nil (document_induction nil cons leaf frame block inner)
    | .filter u ⟨inner, p⟩ =>
      exact frame (.filter u p) inner nil (document_induction nil cons leaf frame block inner)
    | .tag h ⟨inner, p⟩ =>
      exact frame (.tag h p) inner nil (document_induction nil cons leaf frame block inner)
    | .inherits f (some d) p =>
      exact leaf _ rfl (document_induction nil cons leaf frame block [d])
    | .inherits f none p => exact leaf _ rfl nil
    | .includes f (some d) none p =>
      exact leaf _ rfl (document_induction nil cons leaf frame block [d])
    | .includes f none none p => exact leaf _ rfl nil
    | .includesRaw f (some d) us p =>
      exact leaf _ rfl (document_induction nil cons leaf frame block [d])
    | .includesRaw f none us p => exact leaf _ rfl nil
    | .mixin h none => exact leaf _ rfl nil
    | .yield p => exact leaf _ rfl nil
    | .text v p => exact leaf _ rfl nil
  termination_by ns => sizeOf ns

/-! ### Listings -/

@[simp] theorem listingAll_nil : listingAll [] = [] := rfl

@[simp] theorem listingAll_cons (n : Node) (ns : List Node) :
    listingAll (n :: ns) = listing n ++ listingAll ns := rfl

theorem listingAll_toList (d : Option Node) : listingAll d.toList = listingDocument d := by
  cases d with
  | none => rfl
  | some d => simp [listingDocument]

theorem listing_leaf {n : Node} (h : isLeaf n) :
    n.listing = n :: listingAll n.document?.toList := by
  cases n, h using leaf_cases <;>
    simp [listing, listingBody, document?, listingAll_toList]

theorem listing_framed (F : Frame) (ns : List Node) :
    (framed F ns).listing =
      framed F ns :: (listingAll (framed F ns).document?.toList ++ listingAll ns) := by
  cases F <;> simp [framed, listing, listingBody, document?, listingAll_toList]

@[simp] theorem listing_block (h : BlockHead) (ns : List Node) :
    (Node.block h ns).listing = .block h ns :: listingAll ns := rfl

/-- The document loaded for a node is listed with it. -/
theorem listingAll_document_subset (n : Node) : listingAll n.document?.toList ⊆ n.listing := by
  rw [listingAll_toList]
  cases n <;> simp [document?, listing, listingDocument]

end Templating.Node
