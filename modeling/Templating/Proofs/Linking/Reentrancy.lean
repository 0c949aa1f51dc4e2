import Mathlib.Data.List.Forall2
import Templating.Proofs.Linking.Merging

/-!
# Blocks within blocks of the same name

A merge ignores the blocks of the child that lie in a block of the same name, however the blocks
between them are named. Each other block is applied to the parent once, when those inside it have
been, and leaves a lineage if it has targets.
-/

namespace Templating

/-- A named block, and the names of the blocks that it lies in. -/
structure PlacedBlock where
  around : List String
  block : NamedBlock

namespace Node

mutual

/-- The named blocks inside a node in document order, each with the names of the blocks around
it. The node itself lies in blocks of the names `around`. -/
def placed (around : List String) : Node → List PlacedBlock
  | .block h ns => ⟨around, ⟨h, ns⟩⟩ :: placedAll (h.name :: around) ns
  | .group ⟨ns, _⟩ => placedAll around ns
  | .includes _ _ (some ⟨ns, _⟩) _ => placedAll around ns
  | .mixin _ (some ⟨ns, _⟩) => placedAll around ns
  | .filter _ ⟨ns, _⟩ => placedAll around ns
  | .tag _ ⟨ns, _⟩ => placedAll around ns
  | _ => []
  termination_by structural n => n

/-- The named blocks inside nodes, each with the names of the blocks around it. -/
def placedAll (around : List String) : List Node → List PlacedBlock
  | [] => []
  | n :: ns => placed around n ++ placedAll around ns
  termination_by structural ns => ns

end

mutual

/-- The named blocks inside a node, each behind those that it holds. -/
def postorder : Node → List NamedBlock
  | .block h ns => postorderAll ns ++ [⟨h, ns⟩]
  | .group ⟨ns, _⟩ => postorderAll ns
  | .includes _ _ (some ⟨ns, _⟩) _ => postorderAll ns
  | .mixin _ (some ⟨ns, _⟩) => postorderAll ns
  | .filter _ ⟨ns, _⟩ => postorderAll ns
  | .tag _ ⟨ns, _⟩ => postorderAll ns
  | _ => []
  termination_by structural n => n

/-- The named blocks inside nodes, each behind those that it holds. -/
def postorderAll : List Node → List NamedBlock
  | [] => []
  | n :: ns => postorder n ++ postorderAll ns
  termination_by structural ns => ns

end

theorem placed_framed (around : List String) (F : Frame) (ns : List Node) :
    placed around (framed F ns) = placedAll around ns := by
  cases F <;> rfl

theorem placed_leaf {n : Node} (h : isLeaf n) (around : List String) : placed around n = [] := by
  cases n, h using leaf_cases <;> rfl

theorem postorder_framed (F : Frame) (ns : List Node) :
    postorder (framed F ns) = postorderAll ns := by
  cases F <;> rfl

theorem postorder_leaf {n : Node} (h : isLeaf n) : postorder n = [] := by
  cases n, h using leaf_cases <;> rfl

end Node

open Node

/-! ### Marks -/

/-- What a merge makes of a block of the child where it stands: it is ignored if it lies in a block
of the same name; else it gets its targets, if there are any. -/
structure Registry.Marks (r : Registry) (b b' : PlacedBlock) : Prop where
  around : b'.around = b.around
  unmarked : b'.block.head.unmarked = b.block.head.unmarked
  ignored : b'.block.head.ignored = true ↔ b.block.head.name ∈ b.around
  parents : b'.block.head.ignored = false →
    (b'.block.head.parents = some (r.targets b.block.head.name) ↔
      r.targets b.block.head.name ≠ [] ∨ b.block.head.parents = some [])
  kept : b'.block.head.ignored = true ∨ r.targets b.block.head.name = [] →
    b'.block.head.parents = b.block.head.parents

theorem ignored_mark (r : Registry) (h : BlockHead) : (r.mark h).ignored = h.ignored := by
  unfold Registry.mark
  split <;> rfl

theorem Registry.marks_ignored {r : Registry} {around : List String} {h : BlockHead}
    (hn : h.name ∈ around) (ns ns' : List Node) :
    r.Marks ⟨around, ⟨h, ns⟩⟩ ⟨around, ⟨{ h with ignored := true }, ns'⟩⟩ where
  around := rfl
  unmarked := rfl
  ignored := by simp [hn]
  parents := by simp
  kept _ := rfl

theorem Registry.marks_mark {r : Registry} {around : List String} {h : BlockHead}
    (hn : h.name ∉ around) (hh : h.ignored = false) (ns ns' : List Node) :
    r.Marks ⟨around, ⟨h, ns⟩⟩ ⟨around, ⟨r.mark h, ns'⟩⟩ where
  around := rfl
  unmarked := unmarked_mark r h
  ignored := by simp [ignored_mark, hh, hn]
  parents _ := by
    by_cases ht : r.targets h.name = [] <;> simp [Registry.mark, ht]
  kept hkept := by
    have ht : r.targets h.name = [] := by simpa [ignored_mark, hh] using hkept
    simp [Registry.mark, ht]

/-- The names that are active in a merge are those of the blocks around. An ignored block adds no
name, and there is none to add. -/
theorem marks_placedAll {r : Registry} {active around : List String} {ns : List Node}
    (hactive : ∀ name, name ∈ active ↔ name ∈ around)
    (hns : ∀ b ∈ blocksAll ns, b.head.ignored = false) (m : Merging) :
    List.Forall₂ r.Marks (placedAll around ns) (placedAll around (mergeAll r active ns m).1) := by
  induction ns using forest_induction generalizing active around m with
  | nil => exact .nil
  | leaf n ns hn ih =>
    simp only [placedAll, placed_leaf hn, mergeAll_cons, mergeNode_leaf hn, List.nil_append]
    exact ih hactive ((forall_mem_blocksAll_leaf hn).mp hns) m
  | frame F inner ns ihi ih =>
    rw [forall_mem_blocksAll_framed] at hns
    simp only [placedAll, placed_framed, mergeAll_cons, mergeNode_framed]
    exact List.rel_append (ihi hactive hns.1 m) (ih hactive hns.2 _)
  | block k inner ns ihi ih =>
    obtain ⟨(hk : k.ignored = false), hinner, hns⟩ := forall_mem_blocksAll_block.mp hns
    rw [mergeAll_cons]
    refine List.rel_append ?_ (ih hactive hns _)
    by_cases hn : k.name ∈ active
    · have hname := (hactive k.name).mp hn
      rw [mergeNode_block_of_mem hn]
      refine .cons (Registry.marks_ignored hname inner _) (ihi (fun name ↦ ?_) hinner m)
      rw [hactive, List.mem_cons, or_iff_right_of_imp]
      rintro rfl
      exact hname
    · have hname := mt (hactive k.name).mpr hn
      rw [mergeNode_block_of_not_mem hn]
      dsimp only [placed]
      rw [name_mark]
      refine .cons (Registry.marks_mark hname hk inner _) (ihi (fun name ↦ ?_) hinner _)
      rw [List.mem_cons, List.mem_cons, hactive]

/-! ### Lineage -/

theorem Registry.trace_mark (r : Registry) (h : BlockHead) (lineage : Registry) :
    r.trace (r.mark h) lineage = r.trace h lineage := by
  unfold Registry.mark
  split <;> rfl

/-- The lineage of the blocks that are not ignored is recorded in document order. -/
theorem lineage_mergeAll {r : Registry} {active : List String} {ns : List Node}
    (hns : ∀ b ∈ blocksAll ns, b.head.ignored = false) (m : Merging) :
    (mergeAll r active ns m).2.lineage =
      ((blocksAll (mergeAll r active ns m).1).filter (!·.head.ignored)).foldl
        (fun lineage b ↦ r.trace b.head lineage) m.lineage := by
  induction ns using forest_induction generalizing active m with
  | nil => rfl
  | leaf n ns hn ih =>
    rw [forall_mem_blocksAll_leaf hn] at hns
    simp [mergeAll_cons, mergeNode_leaf hn, blocks_leaf hn, ih hns]
  | frame F inner ns ihi ih =>
    rw [forall_mem_blocksAll_framed] at hns
    simp [mergeAll_cons, mergeNode_framed, ← ihi hns.1, ih hns.2]
  | block k inner ns ihi ih =>
    obtain ⟨(hk : k.ignored = false), hinner, hns⟩ := forall_mem_blocksAll_block.mp hns
    by_cases hn : k.name ∈ active
    · simp [mergeAll_cons, mergeNode_block_of_mem hn, ← ihi hinner, ih hns]
    · simp [mergeAll_cons, mergeNode_block_of_not_mem hn, ignored_mark, hk, Registry.trace_mark,
        ← ihi hinner ⟨m.parent, r.trace k m.lineage⟩, ih hns]

/-- Of the blocks of one number the last with targets tells the lineage. -/
theorem parentsOf?_foldl_trace (r : Registry) (bs : List NamedBlock) (lineage : Registry)
    (i : BlockId) :
    (bs.foldl (fun lineage b ↦ r.trace b.head lineage) lineage).parentsOf? i =
      ((bs.filter fun b ↦ b.head.id = some i ∧ r.targets b.head.name ≠ []).getLast?.map
        fun b ↦ r.targets b.head.name).or (lineage.parentsOf? i) := by
  induction bs generalizing lineage with
  | nil => rfl
  | cons b bs ih =>
    rw [List.foldl_cons, ih, parentsOf?_trace, List.filter_cons]
    by_cases hb : b.head.id = some i ∧ r.targets b.head.name ≠ []
    · rw [if_pos hb, if_pos (decide_eq_true hb), List.getLast?_cons]
      cases (bs.filter _).getLast? <;> rfl
    · rw [if_neg hb, if_neg (by simpa using hb)]

/-! ### Overrides of the parent -/

/-- The blocks that override are those that are not ignored. -/
theorem outermostAll_mergeAll {r : Registry} {active : List String} {ns : List Node}
    (hns : ∀ b ∈ blocksAll ns, b.head.ignored = false) (m : Merging) :
    outermostAll active (mergeAll r active ns m).1 =
      (postorderAll (mergeAll r active ns m).1).filter (!·.head.ignored) := by
  induction ns using forest_induction generalizing active m with
  | nil => rfl
  | leaf n ns hn ih =>
    rw [forall_mem_blocksAll_leaf hn] at hns
    simp [mergeAll_cons, mergeNode_leaf hn, outermostAll, outermost_leaf hn, postorderAll,
      postorder_leaf hn, ih hns]
  | frame F inner ns ihi ih =>
    rw [forall_mem_blocksAll_framed] at hns
    simp [mergeAll_cons, mergeNode_framed, outermostAll, outermost_framed, postorderAll,
      postorder_framed, ihi hns.1, ih hns.2]
  | block k inner ns ihi ih =>
    obtain ⟨(hk : k.ignored = false), hinner, hns⟩ := forall_mem_blocksAll_block.mp hns
    by_cases hn : k.name ∈ active
    · simp [mergeAll_cons, mergeNode_block_of_mem hn, outermostAll, outermost, hn, postorderAll,
        postorder, ihi hinner, ih hns]
    · simp [mergeAll_cons, mergeNode_block_of_not_mem hn, outermostAll, outermost, name_mark, hn,
        postorderAll, postorder, ignored_mark, hk, ihi hinner, ih hns]

theorem Registry.apply_of_targets_eq_nil {r : Registry} {b : NamedBlock}
    (h : r.targets b.head.name = []) (parent : List Node) : r.apply parent b = parent := by
  rw [Registry.apply, h, amendAll_without_targets]

/-- The block is one that a merge applies to the parent: it is not ignored, and it has targets. -/
def Registry.applies (r : Registry) (b : NamedBlock) : Bool :=
  !b.head.ignored && r.targets b.head.name ≠ []

theorem filter_applies (r : Registry) (bs : List NamedBlock) :
    bs.filter r.applies =
      (bs.filter (!·.head.ignored)).filter fun b ↦ r.targets b.head.name ≠ [] := by
  rw [List.filter_filter]
  refine List.filter_congr fun b _ ↦ ?_
  rw [Registry.applies, Bool.and_comm]

theorem foldl_apply_filter_applies (r : Registry) (bs : List NamedBlock) (parent : List Node) :
    (bs.filter r.applies).foldl r.apply parent =
      (bs.filter (!·.head.ignored)).foldl r.apply parent := by
  rw [filter_applies, List.foldl_filter]
  refine List.foldl_ext _ _ _ fun parent b _ ↦ ?_
  by_cases ht : r.targets b.head.name = []
  · simp [ht, Registry.apply_of_targets_eq_nil ht]
  · simp [ht]

/-- A merge into a parent with the registry `r`, for a child without ignored blocks. Afterwards
exactly those blocks of the child are ignored that lie in a block of the same name, and the others
have their targets, if any. The last block of a number with targets gives that number its lineage,
other numbers keep theirs. Each block with targets that is not ignored is applied to the parent
once, in postorder, with the content it has in the end. -/
theorem merge_reentrant {r : Registry} {child child' : List Node} {m m' : Merging}
    (hchild : ∀ b ∈ blocksAll child, b.head.ignored = false)
    (h : mergeAll r [] child m = (child', m')) :
    List.Forall₂ r.Marks (placedAll [] child) (placedAll [] child') ∧
      (∀ i, m'.lineage.parentsOf? i =
        (((blocksAll child').filter fun b ↦ r.applies b && b.head.id = some i).getLast?.map
          fun b ↦ r.targets b.head.name).or (m.lineage.parentsOf? i)) ∧
      m'.parent = ((postorderAll child').filter r.applies).foldl r.apply m.parent := by
  obtain ⟨rfl, rfl⟩ := Prod.mk.injEq .. ▸ h
  refine ⟨marks_placedAll (fun _ ↦ Iff.rfl) hchild m, fun i ↦ ?lineage, ?parent⟩
  case lineage =>
    rw [lineage_mergeAll hchild, parentsOf?_foldl_trace, List.filter_filter]
    congr 4
    funext b
    simp only [Registry.applies, Bool.decide_and]
    ac_rfl
  case parent =>
    rw [parent_mergeAll, outermostAll_mergeAll hchild, foldl_apply_filter_applies]

/-- A numbered block that no merge has marked. -/
def numberedBlock (name : String) (mode : Mode) (id : BlockId) (ns : List Node) : Node :=
  .block ⟨name, mode, ⟨none, 1⟩, some id, none, false⟩ ns

/-- The registry of a parent with two blocks. -/
def twoBlocks : Registry := (Registry.empty.register "a" 1).register "b" 2

/-- A parent of the two blocks, and the empty registry of its child. -/
def twoBlocksParent : Merging :=
  ⟨[numberedBlock "a" .replace 1 [], numberedBlock "b" .replace 2 []], .empty⟩

/-- The outer block holds another one of its name, with a block between them. There is a second
block of the number in between, and one of a name that the parent does not have. -/
def nestedChild : List Node :=
  [numberedBlock "a" .append 3 [numberedBlock "b" .replace 4 [numberedBlock "a" .replace 5 []]],
    numberedBlock "b" .prepend 4 [], numberedBlock "c" .replace 6 []]

theorem merge_reentrant_nestedChild :
    ∃ child' m', mergeAll twoBlocks [] nestedChild twoBlocksParent = (child', m') ∧
      (∀ b ∈ blocksAll nestedChild, b.head.ignored = false) ∧
      List.Forall₂ twoBlocks.Marks (placedAll [] nestedChild) (placedAll [] child') ∧
      (∀ i, m'.lineage.parentsOf? i =
        (((blocksAll child').filter fun b ↦ twoBlocks.applies b && b.head.id = some i).getLast?.map
          fun b ↦ twoBlocks.targets b.head.name).or (twoBlocksParent.lineage.parentsOf? i)) ∧
      m'.parent =
        ((postorderAll child').filter twoBlocks.applies).foldl twoBlocks.apply
          twoBlocksParent.parent ∧
      (blocksAll child').map (fun b ↦ (b.head.ignored, b.head.parents)) =
        [(false, some [1]), (false, some [2]), (true, none), (false, some [2]), (false, none)] ∧
      (blocksAll m'.parent).map (·.head.id) = [some 1, some 4, some 5, some 2, some 5] := by
  have hchild : ∀ b ∈ blocksAll nestedChild, b.head.ignored = false := by
    simp [nestedChild, numberedBlock]
  obtain ⟨hmarks, hlineage, hparent⟩ := merge_reentrant (r := twoBlocks) (m := twoBlocksParent)
    hchild rfl
  exact ⟨_, _, rfl, hchild, hmarks, hlineage, hparent, by decide +kernel, by decide +kernel⟩

/-- A block without targets keeps the empty list that it came with, and then has its targets as its
mark although there are none. -/
theorem merge_keeps_emptyMark :
    ¬∀ (r : Registry) (child : List Node) (m : Merging),
      (∀ b ∈ blocksAll child, b.head.id.isSome ∧ b.head.ignored = false) →
        ∀ b ∈ blocksAll (mergeAll r [] child m).1, b.head.ignored = false →
          (b.head.parents = some (r.targets b.head.name) ↔ r.targets b.head.name ≠ []) := by
  intro h
  have hmark := h twoBlocks [.block ⟨"c", .replace, ⟨none, 1⟩, some 3, some [], false⟩ []]
    twoBlocksParent (by simp) ⟨⟨"c", .replace, ⟨none, 1⟩, some 3, some [], false⟩, []⟩
    (.head _) rfl
  have htargets : twoBlocks.targets "c" = [] := by decide +kernel
  simp [htargets] at hmark

end Templating
