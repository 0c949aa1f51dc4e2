import Templating.Proofs.Linking.Declaration
import Templating.Proofs.Linking.Merging
import Templating.Proofs.Linking.Standalone
import Templating.Proofs.Linking.Yielding
import Templating.Proofs.Node.Documents

/-!
# Kinds of nodes in a tree

The passes of linking bring no kinds of nodes into a tree but those of the trees they put together,
and groups. A set of kinds is a predicate on the names of kinds; documents loaded for references
count with the tree.
-/

namespace Templating.Node

/-- The nodes, and all nodes inside them, have kinds in `K`. -/
def OfKinds (K : String → Prop) (ns : List Node) : Prop := ∀ m ∈ listingAll ns, K m.kind

section

variable {K K' : String → Prop} {ns ms : List Node}

theorem OfKinds.imp (hK : ∀ k, K k → K' k) (h : OfKinds K ns) : OfKinds K' ns :=
  fun m hm ↦ hK _ (h m hm)

theorem OfKinds.subset (h : OfKinds K ns) (hsub : listingAll ms ⊆ listingAll ns) :
    OfKinds K ms :=
  fun m hm ↦ h m (hsub hm)

@[simp] theorem ofKinds_nil : OfKinds K [] := by simp [OfKinds, listingAll]

theorem ofKinds_cons {n : Node} : OfKinds K (n :: ns) ↔ OfKinds K [n] ∧ OfKinds K ns := by
  simp only [OfKinds, listingAll, List.append_nil, List.forall_mem_append]

theorem ofKinds_append : OfKinds K (ns ++ ms) ↔ OfKinds K ns ∧ OfKinds K ms := by
  induction ns with
  | nil => simp
  | cons n ns ih =>
    rw [List.cons_append, ofKinds_cons, ih, ← and_assoc, ← ofKinds_cons]

/-- The kinds at a frame do not depend on the sequence in it. -/
theorem ofKinds_framed {F : Frame} :
    OfKinds K [framed F ns] ↔ OfKinds K [framed F []] ∧ OfKinds K ns := by
  cases F <;> simp [OfKinds, framed, listingAll, listing, listingBody, kind, or_imp, forall_and,
    and_assoc]

theorem ofKinds_leaf {n : Node} (hn : n.isLeaf) :
    OfKinds K [n] ↔ K n.kind ∧ OfKinds K n.document?.toList := by
  simp [OfKinds, listing_leaf hn]

theorem ofKinds_framed_iff {F : Frame} :
    OfKinds K [framed F ns] ↔
      K (framed F ns).kind ∧ OfKinds K (framed F ns).document?.toList ∧ OfKinds K ns := by
  simp [OfKinds, listing_framed, or_imp, forall_and]

theorem OfKinds.setDocument_leaf {n : Node} {d : Option Node} (hn : n.isLeaf) (hk : K n.kind)
    (hd : OfKinds K d.toList) : OfKinds K [n.setDocument d] := by
  rw [ofKinds_leaf (isLeaf_setDocument d hn), kind_setDocument]
  refine ⟨hk, ?_⟩
  rcases document?_setDocument d n with h | h
  · rwa [h]
  · simp [h]

theorem OfKinds.setDocument_framed {F : Frame} {d : Option Node} (hk : K (framed F ns).kind)
    (hd : OfKinds K d.toList) (h : OfKinds K ns) : OfKinds K [(framed F ns).setDocument d] := by
  have hkind := kind_setDocument d (framed F ns)
  have hdocument := document?_setDocument d (framed F ns)
  obtain ⟨F', hF'⟩ := exists_setDocument_framed d F
  rw [hF'] at hkind hdocument ⊢
  rw [ofKinds_framed_iff, hkind]
  refine ⟨hk, ?_, h⟩
  rcases hdocument with he | he
  · rwa [he]
  · simp [he]

theorem ofKinds_block {h : BlockHead} :
    OfKinds K [.block h ns] ↔ K "NamedBlock" ∧ OfKinds K ns := by
  simp [OfKinds, listingAll, listing, kind]

theorem ofKinds_group {p : Position} :
    OfKinds K [.group ⟨ns, p⟩] ↔ K "Block" ∧ OfKinds K ns := by
  simp [OfKinds, listingAll, listing, kind]

theorem ofKinds_text {v : String} {p : Position} : OfKinds K [.text v p] ↔ K "Text" := by
  simp [OfKinds, listingAll, listing, kind]

/-! ### Passes over blocks -/

/-- What a pass over the blocks makes of a block has to be looked at, and nothing else. -/
theorem OfKinds.mapBlocksAll {f : BlockHead → List Node → Node} (h : OfKinds K ns)
    (hf : ∀ k xs, K "NamedBlock" → OfKinds K xs → OfKinds K [f k xs]) :
    OfKinds K (mapBlocksAll f ns) := by
  induction ns using forest_induction with
  | nil => exact h
  | leaf n ns hn ih =>
    rw [ofKinds_cons] at h
    rw [mapBlocksAll_cons, mapBlocks_leaf hn, ofKinds_cons]
    exact ⟨h.1, ih h.2⟩
  | frame F inner ns ihi ih =>
    rw [ofKinds_cons, ofKinds_framed] at h
    rw [mapBlocksAll_cons, mapBlocks_framed, ofKinds_cons, ofKinds_framed]
    exact ⟨⟨h.1.1, ihi h.1.2⟩, ih h.2⟩
  | block k inner ns ihi ih =>
    rw [ofKinds_cons, ofKinds_block] at h
    rw [mapBlocksAll_cons, mapBlocks_block, ofKinds_cons]
    exact ⟨hf k _ h.1.1 (ihi h.1.2), ih h.2⟩

/-- Heads do not matter. -/
theorem ofKinds_mapHeadsAll {f : BlockHead → BlockHead} :
    OfKinds K (mapHeadsAll f ns) ↔ OfKinds K ns := by
  unfold mapHeadsAll
  induction ns using forest_induction with
  | nil => rfl
  | leaf n ns hn ih =>
    rw [mapBlocksAll_cons, mapBlocks_leaf hn, ofKinds_cons, ih, ← ofKinds_cons]
  | frame F inner ns ihi ih =>
    rw [mapBlocksAll_cons, mapBlocks_framed, ofKinds_cons, ofKinds_framed, ihi, ih,
      ← ofKinds_framed, ← ofKinds_cons]
  | block k inner ns ihi ih =>
    rw [mapBlocksAll_cons, mapBlocks_block, ofKinds_cons, ofKinds_block, ihi, ih,
      ← ofKinds_block (h := k), ← ofKinds_cons]

theorem ofKinds_congr {f : BlockHead → BlockHead} (h : mapHeadsAll f ns = mapHeadsAll f ms) :
    OfKinds K ns ↔ OfKinds K ms := by
  rw [← ofKinds_mapHeadsAll (f := f), h, ofKinds_mapHeadsAll]

theorem OfKinds.dissolveAll (hg : K "Block") (h : OfKinds K ns) : OfKinds K (dissolveAll ns) := by
  rw [dissolveAll_eq_mapBlocksAll]
  exact h.mapBlocksAll fun _ _ _ hx ↦ ofKinds_group.mpr ⟨hg, hx⟩

theorem OfKinds.combine (mode : Mode) (hn : OfKinds K ns) (hm : OfKinds K ms) :
    OfKinds K (mode.combine ns ms) := by
  cases mode with
  | replace => exact hm
  | append => exact ofKinds_append.mpr ⟨hn, hm⟩
  | prepend => exact ofKinds_append.mpr ⟨hm, hn⟩

theorem OfKinds.amendAll (targets : List BlockId) (mode : Mode) (hm : OfKinds K ms)
    (h : OfKinds K ns) : OfKinds K (amendAll targets mode ms ns) := by
  rw [amendAll_eq_overrideAll]
  refine h.mapBlocksAll fun k xs hk hx ↦ ofKinds_block.mpr ⟨hk, ?_⟩
  change OfKinds K (if k.isAmong targets then mode.combine xs ms else xs)
  split
  · exact hx.combine mode hm
  · exact hx

/-- The content of a block is part of the tree. -/
theorem OfKinds.of_mem_blocksAll {b : NamedBlock} (h : OfKinds K ns) (hb : b ∈ blocksAll ns) :
    OfKinds K b.nodes := by
  induction ns using forest_induction with
  | nil => cases hb
  | leaf n ns hn ih =>
    rw [blocksAll_cons, blocks_leaf hn, List.nil_append] at hb
    exact ih (ofKinds_cons.mp h).2 hb
  | frame F inner ns ihi ih =>
    rw [ofKinds_cons, ofKinds_framed] at h
    rw [blocksAll_cons, blocks_framed, List.mem_append] at hb
    exact hb.elim (ihi h.1.2) (ih h.2)
  | block k inner ns ihi ih =>
    rw [ofKinds_cons, ofKinds_block] at h
    rw [blocksAll_cons, blocks_block, List.cons_append, List.mem_cons, List.mem_append] at hb
    rcases hb with rfl | hb | hb
    · exact h.1.2
    · exact ihi h.1.2 hb
    · exact ih h.2 hb

theorem OfKinds.foldl_apply {r : Registry} {bs : List NamedBlock}
    (hbs : ∀ b ∈ bs, OfKinds K b.nodes) (h : OfKinds K ns) : OfKinds K (bs.foldl r.apply ns) := by
  induction bs generalizing ns with
  | nil => exact h
  | cons b bs ih =>
    rw [List.forall_mem_cons] at hbs
    exact ih hbs.2 (hbs.1.amendAll _ _ h)

/-! ### Declaring and merging -/

theorem ofKinds_declareAll {s : BlockId × Registry} :
    OfKinds K (declareAll ns s).1 ↔ OfKinds K ns :=
  ofKinds_congr (bareAll_declareAll ns s)

/-- A child keeps its kinds in a merge. -/
theorem ofKinds_fst_mergeAll {r : Registry} {m : Merging} :
    OfKinds K (mergeAll r [] ns m).1 ↔ OfKinds K ns :=
  ofKinds_congr (unmarked_mergeAll r [] ns m)

/-- A parent under the overrides of a child. -/
theorem OfKinds.parent_mergeAll {r : Registry} {m : Merging} (hc : OfKinds K ns)
    (hp : OfKinds K m.parent) : OfKinds K (mergeAll r [] ns m).2.parent := by
  rw [Templating.parent_mergeAll]
  refine hp.foldl_apply fun b hb ↦ ?_
  exact (ofKinds_fst_mergeAll.mpr hc).of_mem_blocksAll (mem_blocksAll_of_mem_outermostAll hb)

theorem OfKinds.topMixinsAll (h : OfKinds K ns) : OfKinds K (topMixinsAll ns) := by
  induction ns using top_induction with
  | nil => exact h
  | group inner p ns ihi ih =>
    rw [ofKinds_cons, ofKinds_group] at h
    exact ofKinds_append.mpr ⟨ihi h.1.2, ih h.2⟩
  | other n ns hn ih =>
    rw [ofKinds_cons] at h
    refine ofKinds_append.mpr ⟨?_, ih h.2⟩
    rw [topMixins_of_not_group hn]
    split
    · exact h.1
    · exact ofKinds_nil

/-! ### Yield points -/

theorem OfKinds.fillYieldsAll {content : Block} (hg : K "Block") (hc : OfKinds K content.nodes)
    (h : OfKinds K ns) : OfKinds K (fillYieldsAll content ns) := by
  induction ns using forest_induction with
  | nil => exact h
  | leaf n ns hn ih =>
    rw [ofKinds_cons] at h
    refine ofKinds_cons.mpr ⟨?_, ih h.2⟩
    rcases fillYields_leaf hn with ⟨p, hy⟩ | hy
    · rw [hy]
      exact ofKinds_group.mpr ⟨hg, ofKinds_group.mpr ⟨hg, hc⟩⟩
    · rw [hy]
      exact h.1
  | frame F inner ns ihi ih =>
    rw [ofKinds_cons, ofKinds_framed] at h
    refine ofKinds_cons.mpr ⟨?_, ih h.2⟩
    rw [fillYields_framed]
    exact ofKinds_framed.mpr ⟨h.1.1, ihi h.1.2⟩
  | block k inner ns ihi ih =>
    rw [ofKinds_cons, ofKinds_block] at h
    exact ofKinds_cons.mpr ⟨ofKinds_block.mpr ⟨h.1.1, ihi h.1.2⟩, ih h.2⟩

theorem OfKinds.placeDefault {content : Block} (hg : K "Block") (hc : OfKinds K content.nodes)
    (h : OfKinds K ns) : OfKinds K (placeDefault content ns) := by
  refine placeDefault_induction (motive := fun ns ms ↦ OfKinds K ns → OfKinds K ms) ?append ?skip
    ?enter ns h
  case append =>
    intro ns h
    exact ofKinds_append.mpr ⟨h, ofKinds_group.mpr ⟨hg, hc⟩⟩
  case skip =>
    intro n ns ms ih h
    rw [ofKinds_cons] at h ⊢
    exact ⟨h.1, ih h.2⟩
  case enter =>
    intro F inner ms ns ih h
    rw [ofKinds_cons, ofKinds_framed] at h ⊢
    exact ⟨⟨h.1.1, ih h.1.2⟩, h.2⟩

end

end Templating.Node

namespace Templating

/-- A document that takes content in. -/
theorem Node.OfKinds.takeIn {K : String → Prop} {root : Block} {content : Option Block}
    (hg : K "Block") (hc : ∀ c ∈ content, OfKinds K c.nodes) (h : OfKinds K root.nodes) :
    OfKinds K (root.takeIn content).nodes := by
  cases content with
  | none => exact h
  | some c =>
    have hnodes := hc c rfl
    unfold Block.takeIn
    dsimp only
    split
    · exact h
    · split
      · exact hnodes.fillYieldsAll hg h
      · exact hnodes.placeDefault hg h

end Templating
