import Templating.Proofs.Node.Documents

/-!
# Documents before their link

Linking notes numbers and lineages on the named blocks of a tree. Before that there are none, in the
tree and in the documents loaded for it.
-/

namespace Templating.Node

/-- No link has noted anything on the node, if it is a named block. -/
def isUnlinked : Node → Bool
  | .block h _ => h.id.isNone && h.parents.isNone
  | _ => true

/-- No link has noted anything on a named block, in the node or in the documents loaded for it. -/
def Unlinked (n : Node) : Prop := ∀ m ∈ n.listing, m.isUnlinked

/-- No link has noted anything on a named block, in the nodes or in the documents loaded for
them. -/
def UnlinkedAll (ns : List Node) : Prop := ∀ m ∈ listingAll ns, m.isUnlinked

instance (n : Node) : Decidable n.Unlinked :=
  inferInstanceAs (Decidable (∀ m ∈ n.listing, m.isUnlinked))

theorem unlinkedAll_nil : UnlinkedAll [] := by simp [UnlinkedAll]

theorem unlinkedAll_cons {n : Node} {ns : List Node} :
    UnlinkedAll (n :: ns) ↔ n.Unlinked ∧ UnlinkedAll ns := by
  simp only [UnlinkedAll, Unlinked, listingAll, List.forall_mem_append]

theorem unlinkedAll_append {ns ms : List Node} :
    UnlinkedAll (ns ++ ms) ↔ UnlinkedAll ns ∧ UnlinkedAll ms := by
  induction ns with
  | nil => simp [unlinkedAll_nil]
  | cons n ns ih => rw [List.cons_append, unlinkedAll_cons, unlinkedAll_cons, ih, and_assoc]

theorem unlinkedAll_singleton {n : Node} : UnlinkedAll [n] ↔ n.Unlinked := by
  simp [UnlinkedAll, Unlinked, listingAll]

/-- What a leaf holds is the document loaded for it. -/
theorem unlinked_leaf {n : Node} (hn : n.isLeaf) :
    n.Unlinked ↔ UnlinkedAll n.document?.toList := by
  have hleaf : n.isUnlinked := by cases n, hn using leaf_cases <;> rfl
  simp [Unlinked, UnlinkedAll, listing_leaf hn, hleaf]

theorem unlinked_framed {F : Frame} {ns : List Node} :
    (framed F ns).Unlinked ↔
      UnlinkedAll (framed F ns).document?.toList ∧ UnlinkedAll ns := by
  have hframe : (framed F ns).isUnlinked := by cases F <;> rfl
  simp [Unlinked, UnlinkedAll, listing_framed, hframe, or_imp, forall_and]

theorem Unlinked.setDocument_leaf {n : Node} {d : Option Node} (hn : n.isLeaf)
    (hd : UnlinkedAll d.toList) : (n.setDocument d).Unlinked := by
  rw [unlinked_leaf (isLeaf_setDocument d hn)]
  rcases document?_setDocument d n with h | h
  · rwa [h]
  · rw [h]
    exact unlinkedAll_nil

theorem Unlinked.setDocument_framed {F : Frame} {ns : List Node} {d : Option Node}
    (hd : UnlinkedAll d.toList) (hns : UnlinkedAll ns) :
    ((framed F ns).setDocument d).Unlinked := by
  have hdocument := document?_setDocument d (framed F ns)
  obtain ⟨F', hF'⟩ := exists_setDocument_framed d F
  rw [hF'] at hdocument ⊢
  refine unlinked_framed.mpr ⟨?_, hns⟩
  rcases hdocument with h | h
  · rwa [h]
  · rw [h]
    exact unlinkedAll_nil

theorem unlinked_group {ns : List Node} {p : Position} :
    Unlinked (.group ⟨ns, p⟩) ↔ UnlinkedAll ns := by
  simp [Unlinked, UnlinkedAll, listing, isUnlinked]

theorem unlinked_block {h : BlockHead} {ns : List Node} :
    Unlinked (.block h ns) ↔ (h.id = none ∧ h.parents = none) ∧ UnlinkedAll ns := by
  simp [Unlinked, UnlinkedAll, listing, isUnlinked]

theorem unlinked_inherits {f : Reference} {d : Node} {p : Position} :
    Unlinked (.inherits f (some d) p) ↔ d.Unlinked := by
  simp [Unlinked, listing, listingDocument, isUnlinked]

theorem Unlinked.document {f : Reference} {d : Node} {b : Option Block} {p : Position}
    (h : Unlinked (.includes f (some d) b p)) : d.Unlinked :=
  fun m hm ↦ h m (by simp [listing, listingDocument, hm])

theorem Unlinked.body {f : Reference} {d : Option Node} {ns : List Node} {p q : Position}
    (h : Unlinked (.includes f d (some ⟨ns, q⟩) p)) : UnlinkedAll ns :=
  fun m hm ↦ h m (by simp [listing, listingBody, hm])

theorem UnlinkedAll.of_framed {F : Frame} {ns : List Node} (h : UnlinkedAll [framed F ns]) :
    UnlinkedAll ns :=
  (unlinked_framed.mp (unlinkedAll_singleton.mp h)).2

end Templating.Node
