import Templating.Proofs.Linking.Inheriting
import Templating.Proofs.Node.Kinds

/-!
# Links leave no references

A linked document refers to no other file, at any depth, whatever documents it was put together
from (`Linked.ofKinds_link`). Its nodes are of kinds that occur in these documents, or groups and
texts.
-/

namespace Templating

open Node

namespace Node

/-- A kind of nodes that stand for themselves, and not for a file. -/
def IsOwnKind (k : String) : Prop := k ≠ "Extends" ∧ k ≠ "Include" ∧ k ≠ "RawInclude"

/-- The kinds in `K` of nodes that stand for themselves. -/
def OwnKinds (K : String → Prop) (k : String) : Prop := K k ∧ IsOwnKind k

variable {K : String → Prop}

/-- Nodes without kinds that refer to files are standalone. -/
theorem OfKinds.standalone {ns : List Node} (h : OfKinds IsOwnKind ns) : Standalone ns := by
  intro m hm
  have hk := h m hm
  cases m <;> simp_all [IsOwnKind, kind, isInherits, isInclusion]

theorem ownKinds_block (hg : K "Block") : OwnKinds K "Block" := ⟨hg, by simp [IsOwnKind]⟩

/-- A frame that is no inclusion stands for itself. -/
theorem ofKinds_ownKinds_framed {F : Frame} {ns : List Node}
    (hF : (framed F ns).isInclusion = false) (h : OfKinds K [framed F []]) :
    OfKinds (OwnKinds K) [framed F []] := by
  cases F with
  | includes => cases hF
  | _ =>
    intro m hm
    have hk := h m hm
    simp only [framed, listingAll, listing, listingBody, List.append_nil, List.mem_singleton] at hm
    subst hm
    exact ⟨hk, by simp [IsOwnKind, kind]⟩

/-- So does a leaf that refers to no file. -/
theorem ofKinds_ownKinds_leaf {n : Node} (hn : n.isLeaf) (hi : n.isInclusion = false)
    (hfirst : firstInherit n = none) (h : OfKinds K [n]) : OfKinds (OwnKinds K) [n] := by
  cases n, hn using leaf_cases with
  | inherits => cases hfirst
  | includes => cases hi
  | includesRaw => cases hi
  | _ =>
    intro m hm
    have hk := h m hm
    simp only [listingAll, listing, listingBody, List.append_nil, List.mem_singleton] at hm
    subst hm
    exact ⟨hk, by simp [IsOwnKind, kind]⟩

end Node

/-- A document that inherits, put into its parent. -/
theorem Linked.ofKinds_inherit {K : String → Prop} {parent l : Linked} {child : List Node}
    {r : Registry} {overrides : List (String × Position)} (hc : OfKinds K child)
    (hp : OfKinds K parent.root.nodes) (h : parent.inherit child r overrides = .ok l) :
    OfKinds K l.root.nodes := by
  obtain ⟨-, rfl⟩ := Linked.inherit_eq_ok.mp h
  exact ofKinds_append.mpr ⟨(ofKinds_fst_mergeAll.mpr hc).topMixinsAll, hc.parent_mergeAll hp⟩

/-- A linked document at an include site. -/
theorem Linked.ofKinds_embedded {K : String → Prop} {l : Linked} (hg : K "Block")
    (h : OfKinds K l.root.nodes) : OfKinds K l.embedded.nodes := by
  unfold Linked.embedded
  split
  · exact h.dissolveAll hg
  · exact h

/-- Links keep to the kinds of `K`, and leave out those that refer to files. -/
theorem linkCases_ofKinds {K : String → Prop} (hg : K "Block") (ht : K "Text") :
    LinkCases
      (fun d _ l _ _ ↦ OfKinds K [d] → OfKinds (OwnKinds K) l.root.nodes)
      (fun ns _ ns' _ ↦ firstInheritAll ns = none → OfKinds K ns →
        OfKinds (OwnKinds K) ns') where
  base ns p s ns' s' _ hfirst ih hk :=
    ofKinds_declareAll.mpr (ih hfirst (ofKinds_group.mp hk).2)
  inherit f d q ns p s ns' s' overrides parent s'' gs l hfirst ih _ ihp hl hk := by
    rw [ofKinds_group, ofKinds_cons] at hk
    have hd : OfKinds K [d] := hk.2.1.subset (by simp [listingAll, listing, listingDocument])
    exact Linked.ofKinds_inherit (ofKinds_declareAll.mpr (ih hfirst hk.2.2)) (ihp hd) hl
  nil s _ _ := ofKinds_nil
  cons n ns s n' s' ns' s'' ihn ih hfirst hk := by
    simp only [firstInheritAll, Option.or_eq_none_iff] at hfirst ihn
    rw [ofKinds_cons] at hk ⊢
    exact ⟨ihn ⟨hfirst.1, trivial⟩ hk.1, ih hfirst.2 hk.2⟩
  framed F ns s ns' s' hF ih hfirst hk := by
    have hinner : firstInheritAll ns = none := by
      cases F <;> simpa [firstInheritAll, firstInherit, framed] using hfirst
    rw [ofKinds_framed] at hk ⊢
    exact ⟨ofKinds_ownKinds_framed hF hk.1, ih hinner hk.2⟩
  block h ns s ns' s' ih hfirst hk := by
    have hinner : firstInheritAll ns = none := by
      simpa [firstInheritAll, firstInherit] using hfirst
    rw [ofKinds_block] at hk ⊢
    exact ⟨⟨hk.1, by simp [IsOwnKind]⟩, ih hinner hk.2⟩
  leaf n s hn hi hfirst hk := by
    simp only [firstInheritAll, Option.or_none] at hfirst
    exact ofKinds_ownKinds_leaf hn hi hfirst hk
  includesRaw f d us p s t _ _ _ := ofKinds_text.mpr ⟨ht, by simp [IsOwnKind]⟩
  includes f d p s l s' gs ih _ hk := by
    have hd : OfKinds K [d] := hk.subset (by simp [listingAll, listing, listingDocument])
    exact ofKinds_group.mpr
      ⟨ownKinds_block hg, Linked.ofKinds_embedded (ownKinds_block hg) (ih hd)⟩
  includesWith f d ns q p s ns' s' l s'' gs ih ihd hfirst hk := by
    have hd : OfKinds K [d] := hk.subset (by simp [listingAll, listing, listingDocument])
    have hns : OfKinds K ns := hk.subset (by simp [listingAll, listing, listingBody])
    have hinner : firstInheritAll ns = none := by
      simpa [firstInheritAll, firstInherit] using hfirst
    have hsite : OfKinds (OwnKinds K) (l.embedded.takeIn (some ⟨ns', q⟩)).nodes :=
      .takeIn (ownKinds_block hg) (by simpa using ih hinner hns)
        (Linked.ofKinds_embedded (ownKinds_block hg) (ihd hd))
    exact ofKinds_group.mpr ⟨ownKinds_block hg, hsite⟩

/-- A linked document has no references, and no kinds of nodes but those of the document it was
linked from, groups and texts. -/
theorem Linked.ofKinds_link {K : String → Prop} (hg : K "Block") (ht : K "Text") {n : Node}
    {l : Linked} (h : link n = .ok l) (hk : OfKinds K [n]) :
    OfKinds (OwnKinds K) l.root.nodes := by
  obtain ⟨s', hl⟩ := link_eq_ok.mp h
  obtain ⟨gs, -, hkinds⟩ := (linkCases_ofKinds hg ht).linkNode n hl
  exact hkinds hk

end Templating
