import Templating.Proofs.Linking.Reentrancy

/-!
# The frame of a merge

A merge rewrites the content of the blocks that the child's blocks are applied to. Nothing else
in the parent changes, and nothing but marks in the child. The part of the parent outside the
rewritten blocks is the tree in which those blocks are empty: what a block holds may be replaced
together with blocks of other numbers in it, so only the outermost rewritten blocks are left there.
-/

namespace Templating

theorem BlockHead.isAmong_mono {h : BlockHead} {ids targets : List BlockId} (hsub : targets ⊆ ids)
    (hh : h.isAmong targets) : h.isAmong ids := by
  obtain ⟨i, hi, hmem⟩ := BlockHead.isAmong_iff.mp hh
  exact BlockHead.isAmong_iff.mpr ⟨i, hi, hsub hmem⟩

namespace Node

/-- Nodes whose named blocks with one of the numbers hold nothing. Blocks inside such a block go
with its content. -/
def emptyAll (ids : List BlockId) (ns : List Node) : List Node :=
  rewriteAll (fun h own ↦ if h.isAmong ids then [] else own) ns

/-- An override of blocks that are emptied is not seen afterwards, whatever content it brings. -/
theorem emptyAll_amendAll {ids targets : List BlockId} (hsub : targets ⊆ ids) (mode : Mode)
    (content ns : List Node) :
    emptyAll ids (amendAll targets mode content ns) = emptyAll ids ns := by
  rw [amendAll_eq_overrideAll]
  refine mapBlocksAll_mapBlocksAll fun b _ xs ↦ ?_
  rw [mapBlocks_block]
  by_cases hb : b.head.isAmong targets
  · simp [BlockHead.isAmong_mono hsub hb]
  · simp [hb]

end Node

open Node

namespace Registry

/-- The blocks of the parent that a merge of the child rewrites: the targets of those blocks of
the child that lie in no block of the same name. -/
def reached (r : Registry) (child : List Node) : List BlockId :=
  (outermostAll [] child).flatMap fun b ↦ r.targets b.head.name

/-- Overrides one after another, seen outside all their targets. -/
theorem emptyAll_foldl_apply {r : Registry} {ids : List BlockId} {bs : List NamedBlock}
    (h : ∀ b ∈ bs, r.targets b.head.name ⊆ ids) (parent : List Node) :
    emptyAll ids (bs.foldl r.apply parent) = emptyAll ids parent := by
  induction bs generalizing parent with
  | nil => rfl
  | cons b bs ih =>
    rw [List.forall_mem_cons] at h
    rw [List.foldl_cons, ih h.2]
    exact emptyAll_amendAll h.1 b.head.mode b.nodes parent

end Registry

/-- A merge does not change the names of the blocks that lie in no block of the same name. -/
theorem map_name_outermostAll_mergeAll (r : Registry) (around : List String) (ns : List Node)
    (m : Merging) :
    (outermostAll around (mergeAll r around ns m).1).map (·.head.name) =
      (outermostAll around ns).map (·.head.name) := by
  induction ns using forest_induction generalizing around m with
  | nil => rfl
  | leaf n ns hn ih =>
    simp [mergeAll_cons, mergeNode_leaf hn, outermostAll, outermost_leaf hn, ih]
  | frame F inner ns ihi ih =>
    simp [mergeAll_cons, mergeNode_framed, outermostAll, outermost_framed, ihi, ih]
  | block h inner ns ihi ih =>
    by_cases hn : h.name ∈ around
    · simp [mergeAll_cons, mergeNode_block_of_mem hn, outermostAll, outermost, hn, ihi, ih]
    · simp [mergeAll_cons, mergeNode_block_of_not_mem hn, outermostAll, outermost, name_mark, hn,
        ihi, ih]

/-- The merged child reaches the same blocks. -/
theorem reached_mergeAll (r : Registry) (child : List Node) (m : Merging) :
    r.reached (mergeAll r [] child m).1 = r.reached child := by
  have h := congrArg (·.flatMap r.targets) (map_name_outermostAll_mergeAll r [] child m)
  simpa only [Registry.reached, List.flatMap_map] using h

/-- The blocks in post-order are the blocks. -/
theorem Node.mem_postorderAll {ns : List Node} {b : NamedBlock} :
    b ∈ postorderAll ns ↔ b ∈ blocksAll ns := by
  induction ns using forest_induction with
  | nil => rfl
  | leaf n ns hn ih => simp [postorderAll, postorder_leaf hn, blocks_leaf hn, ih]
  | frame F inner ns ihi ih => simp [postorderAll, postorder_framed, ihi, ih]
  | block h inner ns ihi ih =>
    rw [postorderAll, postorder, List.mem_append, List.mem_append, List.mem_singleton, ihi, ih,
      blocksAll_cons, blocks_block, List.mem_append, List.mem_cons, or_comm (a := b ∈ blocksAll _)]

/-- If no block of the child was ignored before, the merge reaches the targets of the blocks that
are not ignored afterwards. -/
theorem mem_reached_iff {r : Registry} {child : List Node}
    (hchild : ∀ b ∈ blocksAll child, b.head.ignored = false) (m : Merging) (i : BlockId) :
    i ∈ r.reached child ↔
      ∃ b ∈ blocksAll (mergeAll r [] child m).1,
        b.head.ignored = false ∧ i ∈ r.targets b.head.name := by
  rw [← reached_mergeAll r child m, Registry.reached, outermostAll_mergeAll hchild]
  simp [mem_postorderAll, and_assoc]

/-- A merge into a parent with the registry `r`. The parents before and after it are equal as soon
as the blocks that it reaches are emptied, and the child differs in marks only. For a child without
ignored blocks, the blocks reached are the targets of the blocks that are not ignored afterwards. -/
theorem merge_frame {r : Registry} {child child' : List Node} {m m' : Merging}
    (h : mergeAll r [] child m = (child', m')) :
    emptyAll (r.reached child) m'.parent = emptyAll (r.reached child) m.parent ∧
      mapHeadsAll BlockHead.unmarked child' = mapHeadsAll BlockHead.unmarked child ∧
      ((∀ b ∈ blocksAll child, b.head.ignored = false) →
        ∀ i, i ∈ r.reached child ↔
          ∃ b ∈ blocksAll child', b.head.ignored = false ∧ i ∈ r.targets b.head.name) := by
  obtain ⟨rfl, rfl⟩ := Prod.mk.injEq .. ▸ h
  refine ⟨?parent, unmarked_mergeAll r [] child m, fun hchild ↦ mem_reached_iff hchild m⟩
  rw [parent_mergeAll, ← reached_mergeAll r child m]
  exact Registry.emptyAll_foldl_apply
    (fun b hb i hi ↦ List.mem_flatMap.mpr ⟨b, hb, hi⟩) m.parent

/-- The second block lies in the first one and, again, in a block that is not overridden. -/
def nestedParent : List Node :=
  [numberedBlock "a" .replace 1 [numberedBlock "b" .replace 2 []],
    numberedBlock "c" .replace 3 [numberedBlock "b" .replace 2 []]]

theorem merge_frame_nestedParent :
    ∃ child' m', mergeAll twoBlocks [] nestedChild ⟨nestedParent, .empty⟩ = (child', m') ∧
      twoBlocks.reached nestedChild = [2, 1, 2] ∧
      emptyAll (twoBlocks.reached nestedChild) m'.parent =
        emptyAll (twoBlocks.reached nestedChild) nestedParent ∧
      emptyAll (twoBlocks.reached nestedChild) nestedParent =
        [numberedBlock "a" .replace 1 [],
          numberedBlock "c" .replace 3 [numberedBlock "b" .replace 2 []]] ∧
      mapHeadsAll BlockHead.unmarked child' = mapHeadsAll BlockHead.unmarked nestedChild ∧
      (∀ i, i ∈ twoBlocks.reached nestedChild ↔
        ∃ b ∈ blocksAll child', b.head.ignored = false ∧ i ∈ twoBlocks.targets b.head.name) ∧
      (blocksAll m'.parent).map (·.head.id) =
        [some 1, some 2, some 5, some 4, some 5, some 3, some 2, some 5] := by
  have hmerge : mergeAll twoBlocks [] nestedChild ⟨nestedParent, .empty⟩ = (_, _) := rfl
  obtain ⟨hparent, hchild, hreached⟩ := merge_frame hmerge
  have htargets : twoBlocks.reached nestedChild = [2, 1, 2] := by decide +kernel
  refine ⟨_, _, rfl, htargets, hparent, ?_, hchild, ?_, by decide +kernel⟩
  · rw [htargets]
    rfl
  · exact hreached (by simp [nestedChild, numberedBlock])

end Templating
