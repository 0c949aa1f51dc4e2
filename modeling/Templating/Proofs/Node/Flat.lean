import Templating.Proofs.Node.Overriding

/-!
# Trees whose blocks are not nested

Where no named block lies inside another, the overrides of a name act on the content of the blocks
of that name and nowhere else, so a sequence of overrides is one pass over the tree
(`foldl_overrideBy`).
-/

namespace Templating

/-- A head names a replace-mode block. -/
def BlockHead.isReplaceNamed (name : String) (h : BlockHead) : Bool :=
  h.mode = .replace && h.name = name

/-- A block without what linking notes on its head and inside it. -/
def NamedBlock.bare (b : NamedBlock) : NamedBlock := ⟨b.head.bare, Node.bareAll b.nodes⟩

namespace Node

/-- No named block lies inside another. -/
def Flat (ns : List Node) : Prop := ∀ b ∈ blocksAll ns, blocksAll b.nodes = []

instance (ns : List Node) : Decidable (Flat ns) :=
  inferInstanceAs (Decidable (∀ b ∈ blocksAll ns, blocksAll b.nodes = []))

theorem flat_cons_leaf {n : Node} (hn : isLeaf n) {ns : List Node} :
    Flat (n :: ns) ↔ Flat ns := by
  simp only [Flat, blocksAll_cons, blocks_leaf hn, List.nil_append]

theorem flat_cons_framed {F : Frame} {inner ns : List Node} :
    Flat (framed F inner :: ns) ↔ Flat inner ∧ Flat ns := by
  simp only [Flat, blocksAll_cons, blocks_framed, List.forall_mem_append]

theorem flat_cons_block {h : BlockHead} {inner ns : List Node} :
    Flat (.block h inner :: ns) ↔ blocksAll inner = [] ∧ Flat ns := by
  simp only [Flat, blocksAll_cons, blocks_block, List.cons_append, List.forall_mem_cons,
    List.forall_mem_append]
  exact and_congr_right fun hi ↦ by simp [hi]

theorem blocksAll_bareAll (ns : List Node) :
    blocksAll (bareAll ns) = (blocksAll ns).map NamedBlock.bare :=
  blocksAll_mapHeadsAll _ ns

/-- Whether blocks are nested does not depend on what linking notes. -/
theorem Flat.of_bareAll_eq {ns ms : List Node} (h : bareAll ns = bareAll ms) (hm : Flat ms) :
    Flat ns := by
  intro b hb
  obtain ⟨c, hc, -, hn⟩ := exists_block_of_mapHeadsAll_eq h hb
  have hmap := congrArg blocksAll hn
  rw [blocksAll_mapHeadsAll, blocksAll_mapHeadsAll, hm c hc, List.map_nil] at hmap
  exact List.map_eq_nil_iff.mp hmap

/-- The tree under an override of a name. -/
def overrideBy (ns : List Node) (b : NamedBlock) : List Node :=
  overrideAll (BlockHead.isReplaceNamed b.head.name) b.head.mode b.nodes ns

/-- The content of a block after overrides, first to last. -/
def overriddenBy (bs : List NamedBlock) (own : List Node) : List Node :=
  bs.foldl (fun xs b ↦ b.head.mode.combine xs b.nodes) own

/-- The tree in which the replace-mode blocks have their content overridden by the blocks of their
name. -/
def overrideNamed (bs : List NamedBlock) (ns : List Node) : List Node :=
  rewriteAll (fun h xs ↦
    if h.mode = .replace then overriddenBy (bs.filter (·.head.name = h.name)) xs else xs) ns

theorem overrideNamed_nil (ns : List Node) : overrideNamed [] ns = ns :=
  mapBlocksAll_eq_self fun b _ ↦ by simp [overriddenBy]

theorem mapBlocksAll_of_no_blocks {ns : List Node} (h : blocksAll ns = [])
    (f : BlockHead → List Node → Node) : mapBlocksAll f ns = ns :=
  mapBlocksAll_eq_self (by simp [h])

theorem mapBlocksAll_combine (f : BlockHead → List Node → Node) (mode : Mode)
    (own override : List Node) :
    mapBlocksAll f (mode.combine own override) =
      mode.combine (mapBlocksAll f own) (mapBlocksAll f override) := by
  cases mode <;> simp [Mode.combine]

/-- A pass goes through overrides whose content has no blocks. -/
theorem mapBlocksAll_overriddenBy {bs : List NamedBlock} (hbs : ∀ b ∈ bs, blocksAll b.nodes = [])
    (f : BlockHead → List Node → Node) (own : List Node) :
    mapBlocksAll f (overriddenBy bs own) = overriddenBy bs (mapBlocksAll f own) := by
  unfold overriddenBy
  induction bs generalizing own with
  | nil => rfl
  | cons b bs ih =>
    rw [List.forall_mem_cons] at hbs
    rw [List.foldl_cons, List.foldl_cons, ih hbs.2, mapBlocksAll_combine,
      mapBlocksAll_of_no_blocks hbs.1]

/-- One more override. -/
theorem overrideBy_overrideNamed {bs : List NamedBlock} {b : NamedBlock}
    (hbs : ∀ c ∈ bs ++ [b], blocksAll c.nodes = []) (ns : List Node) :
    overrideBy (overrideNamed bs ns) b = overrideNamed (bs ++ [b]) ns := by
  rw [List.forall_mem_append, List.forall_mem_singleton] at hbs
  apply mapBlocksAll_mapBlocksAll
  intro c _ xs
  rw [mapBlocks_block, apply_ite (mapBlocksAll _), mapBlocksAll_overriddenBy fun d hd ↦
    hbs.1 d (List.mem_filter.mp hd).1]
  by_cases hmode : c.head.mode = .replace
  · by_cases hname : b.head.name = c.head.name
    · simp [BlockHead.isReplaceNamed, overriddenBy, hmode, hname]
    · simp [BlockHead.isReplaceNamed, overriddenBy, hmode, hname, Ne.symm hname]
  · simp [BlockHead.isReplaceNamed, hmode]

/-- Overrides one after another are one pass. -/
theorem foldl_overrideBy {bs cs : List NamedBlock}
    (h : ∀ c ∈ bs ++ cs, blocksAll c.nodes = []) (ns : List Node) :
    cs.foldl overrideBy (overrideNamed bs ns) = overrideNamed (bs ++ cs) ns := by
  induction cs generalizing bs with
  | nil => simp
  | cons c cs ih =>
    rw [List.append_cons] at h ⊢
    have hc : ∀ d ∈ bs ++ [c], blocksAll d.nodes = [] := fun d hd ↦
      h d (List.mem_append_left _ hd)
    rw [List.foldl_cons, overrideBy_overrideNamed hc, ih h]

theorem overrideBy_append (ns ms : List Node) (b : NamedBlock) :
    overrideBy (ns ++ ms) b = overrideBy ns b ++ overrideBy ms b :=
  mapBlocksAll_append _ ns ms

/-- Overrides leave nodes without blocks alone. -/
theorem foldl_overrideBy_append {ns : List Node} (h : blocksAll ns = []) (ms : List Node)
    (bs : List NamedBlock) :
    bs.foldl overrideBy (ns ++ ms) = ns ++ bs.foldl overrideBy ms := by
  induction bs generalizing ms with
  | nil => rfl
  | cons b bs ih =>
    have hns : overrideBy ns b = ns := mapBlocksAll_of_no_blocks h _
    rw [List.foldl_cons, List.foldl_cons, overrideBy_append, hns, ih]

/-- An override seen without what linking notes. -/
theorem bareAll_overrideBy (ns : List Node) (b : NamedBlock) :
    bareAll (overrideBy ns b) = overrideBy (bareAll ns) b.bare :=
  mapHeadsAll_overrideAll fun _ _ ↦ rfl

theorem bareAll_foldl_overrideBy (bs : List NamedBlock) (ns : List Node) :
    bareAll (bs.foldl overrideBy ns) = (bs.map NamedBlock.bare).foldl overrideBy (bareAll ns) := by
  induction bs generalizing ns with
  | nil => rfl
  | cons b bs ih => rw [List.foldl_cons, ih, bareAll_overrideBy, List.map_cons, List.foldl_cons]

/-- Overriding keeps the heads of blocks that are not nested. -/
theorem exists_mem_blocksAll_rewriteAll {ns : List Node} (hf : Flat ns)
    (f : BlockHead → List Node → List Node) {b : NamedBlock} (hb : b ∈ blocksAll ns) :
    ∃ xs, ⟨b.head, xs⟩ ∈ blocksAll (rewriteAll f ns) := by
  unfold rewriteAll
  induction ns using forest_induction with
  | nil => cases hb
  | leaf n ns hn ih =>
    rw [blocksAll_cons, blocks_leaf hn, List.nil_append] at hb
    simpa [mapBlocks_leaf hn, blocks_leaf hn] using ih ((flat_cons_leaf hn).mp hf) hb
  | frame F inner ns ihi ih =>
    rw [flat_cons_framed] at hf
    rw [blocksAll_cons, blocks_framed, List.mem_append] at hb
    rcases hb with hb | hb
    · obtain ⟨xs, hxs⟩ := ihi hf.1 hb
      exact ⟨xs, by simp [hxs]⟩
    · obtain ⟨xs, hxs⟩ := ih hf.2 hb
      exact ⟨xs, by simp [hxs]⟩
  | block h inner ns ihi ih =>
    rw [flat_cons_block] at hf
    rw [blocksAll_cons, blocks_block, hf.1, List.cons_append, List.nil_append,
      List.mem_cons] at hb
    rcases hb with rfl | hb
    · exact ⟨f h (mapBlocksAll (fun h xs ↦ .block h (f h xs)) inner), by simp⟩
    · obtain ⟨xs, hxs⟩ := ih hf.2 hb
      exact ⟨xs, by simp [hxs]⟩

end Node
end Templating
