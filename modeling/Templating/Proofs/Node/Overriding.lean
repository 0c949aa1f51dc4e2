import Templating.Proofs.Node.Blocks

/-!
# Heads and overrides

How overriding blocks by number acts on the named blocks of a tree. Seen through any change of
heads, an override by number is an override of the blocks whose changed head fulfils a condition
(`mapHeadsAll_amendAll`), as far as that condition tells the targets from the other blocks.
-/

namespace Templating

/-- The block is among the numbered ones. -/
def BlockHead.isAmong (h : BlockHead) (ids : List BlockId) : Bool := h.id.any (· ∈ ids)

theorem BlockHead.isAmong_iff {h : BlockHead} {ids : List BlockId} :
    h.isAmong ids ↔ ∃ i, h.id = some i ∧ i ∈ ids := by
  cases hi : h.id <;> simp [isAmong, hi]

namespace Node

/-- Nodes whose named blocks with a condition on the head are overridden. -/
def overrideAll (p : BlockHead → Bool) (mode : Mode) (content ns : List Node) : List Node :=
  rewriteAll (fun h xs ↦ if p h then mode.combine xs content else xs) ns

theorem amend_framed (targets : List BlockId) (mode : Mode) (content : List Node) (F : Frame)
    (ns : List Node) :
    amend targets mode content (framed F ns) = framed F (amendAll targets mode content ns) := by
  cases F <;> rfl

theorem amend_leaf {n : Node} (h : isLeaf n) (targets : List BlockId) (mode : Mode)
    (content : List Node) : amend targets mode content n = n := by
  cases n, h using leaf_cases <;> rfl

theorem amend_block (targets : List BlockId) (mode : Mode) (content : List Node) (h : BlockHead)
    (ns : List Node) :
    amend targets mode content (.block h ns) =
      .block h (if h.isAmong targets then mode.combine (amendAll targets mode content ns) content
        else amendAll targets mode content ns) := by
  cases hi : h.id with
  | none => simp [amend, BlockHead.isAmong, hi]
  | some i => by_cases hm : i ∈ targets <;> simp [amend, BlockHead.isAmong, hi, hm]

/-- Overriding by number is a pass over the blocks. -/
theorem amendAll_eq_overrideAll (targets : List BlockId) (mode : Mode) (content ns : List Node) :
    amendAll targets mode content ns = overrideAll (·.isAmong targets) mode content ns := by
  unfold overrideAll rewriteAll
  induction ns using forest_induction with
  | nil => rfl
  | leaf n ns hn ih => simp [amendAll, amend_leaf hn, mapBlocks_leaf hn, ih]
  | frame F inner ns ihi ih => simp [amendAll, amend_framed, ihi, ih]
  | block h inner ns ihi ih => simp [amendAll, amend_block, ihi, ih]

/-- Dissolving is a pass over the blocks. -/
theorem dissolveAll_eq_mapBlocksAll (ns : List Node) :
    dissolveAll ns = mapBlocksAll (fun h xs ↦ .group ⟨xs, h.position⟩) ns := by
  induction ns using forest_induction with
  | nil => rfl
  | leaf n ns hn ih =>
    have hd : dissolve n = n := by cases n, hn using leaf_cases <;> rfl
    simp [dissolveAll, hd, mapBlocks_leaf hn, ih]
  | frame F inner ns ihi ih =>
    have hd : dissolve (framed F inner) = framed F (dissolveAll inner) := by cases F <;> rfl
    simp [dissolveAll, hd, ihi, ih]
  | block h inner ns ihi ih => simp [dissolveAll, dissolve, ihi, ih]

/-- A dissolved tree has no named blocks. -/
theorem blocksAll_dissolveAll (ns : List Node) : blocksAll (dissolveAll ns) = [] := by
  rw [dissolveAll_eq_mapBlocksAll]
  induction ns using forest_induction with
  | nil => rfl
  | leaf n ns hn ih => simp [mapBlocks_leaf hn, blocks_leaf hn, ih]
  | frame F inner ns ihi ih => simp [ihi, ih]
  | block h inner ns ihi ih => simpa [blocks, ih] using ihi

/-! ### Change of heads -/

@[simp] theorem mapHeadsAll_nil (f : BlockHead → BlockHead) : mapHeadsAll f [] = [] := rfl

@[simp] theorem mapHeadsAll_block (f : BlockHead → BlockHead) (h : BlockHead) (ns : List Node) :
    mapHeadsAll f [.block h ns] = [.block (f h) (mapHeadsAll f ns)] := rfl

@[simp] theorem mapHeadsAll_framed (f : BlockHead → BlockHead) (F : Frame) (ns : List Node) :
    mapHeadsAll f [framed F ns] = [framed F (mapHeadsAll f ns)] := by
  cases F <;> rfl

theorem mapHeadsAll_leaf {n : Node} (hn : isLeaf n) (f : BlockHead → BlockHead) :
    mapHeadsAll f [n] = [n] := by
  simp [mapHeadsAll, mapBlocks_leaf hn]

theorem mapHeadsAll_cons_leaf {f : BlockHead → BlockHead} {n : Node} (hn : isLeaf n)
    (ns : List Node) : mapHeadsAll f (n :: ns) = n :: mapHeadsAll f ns := by
  simp [mapHeadsAll, mapBlocks_leaf hn]

theorem mapHeadsAll_cons_framed {f : BlockHead → BlockHead} (F : Frame) (inner ns : List Node) :
    mapHeadsAll f (framed F inner :: ns) = framed F (mapHeadsAll f inner) :: mapHeadsAll f ns := by
  simp [mapHeadsAll]

theorem mapHeadsAll_cons_block {f : BlockHead → BlockHead} (h : BlockHead)
    (inner ns : List Node) :
    mapHeadsAll f (.block h inner :: ns) =
      .block (f h) (mapHeadsAll f inner) :: mapHeadsAll f ns := rfl

@[simp] theorem mapHeadsAll_eq_nil_iff {f : BlockHead → BlockHead} {ns : List Node} :
    mapHeadsAll f ns = [] ↔ ns = [] := by
  cases ns <;> simp [mapHeadsAll]

@[simp] theorem isEmpty_mapHeadsAll (f : BlockHead → BlockHead) (ns : List Node) :
    (mapHeadsAll f ns).isEmpty = ns.isEmpty := by
  cases ns <;> rfl

@[simp] theorem mapHeadsAll_append (f : BlockHead → BlockHead) (ns ms : List Node) :
    mapHeadsAll f (ns ++ ms) = mapHeadsAll f ns ++ mapHeadsAll f ms :=
  mapBlocksAll_append _ ns ms

theorem bareAll_append (ns ms : List Node) : bareAll (ns ++ ms) = bareAll ns ++ bareAll ms :=
  mapBlocksAll_append _ ns ms

theorem mapHeadsAll_mapHeadsAll (f g : BlockHead → BlockHead) (ns : List Node) :
    mapHeadsAll f (mapHeadsAll g ns) = mapHeadsAll (fun h ↦ f (g h)) ns :=
  mapBlocksAll_mapBlocksAll fun _ _ _ ↦ rfl

theorem mapHeadsAll_congr {f g : BlockHead → BlockHead} {ns : List Node}
    (h : ∀ b ∈ blocksAll ns, f b.head = g b.head) : mapHeadsAll f ns = mapHeadsAll g ns :=
  mapBlocksAll_congr fun b hb xs ↦ by rw [h b hb]

theorem mapHeadsAll_combine (f : BlockHead → BlockHead) (mode : Mode) (own override : List Node) :
    mapHeadsAll f (mode.combine own override) =
      mode.combine (mapHeadsAll f own) (mapHeadsAll f override) := by
  cases mode <;> simp [Mode.combine]

/-- The named blocks under a change of heads. -/
theorem blocksAll_mapHeadsAll (f : BlockHead → BlockHead) (ns : List Node) :
    blocksAll (mapHeadsAll f ns) =
      (blocksAll ns).map fun b ↦ ⟨f b.head, mapHeadsAll f b.nodes⟩ := by
  unfold mapHeadsAll
  induction ns using forest_induction with
  | nil => rfl
  | leaf n ns hn ih => simp [mapBlocks_leaf hn, blocks_leaf hn, ih]
  | frame F inner ns ihi ih => simp [ihi, ih]
  | block h inner ns ihi ih => simp [ihi, ih]

/-- Trees that agree under a change of heads have blocks that agree under it. -/
theorem exists_block_of_mapHeadsAll_eq {f : BlockHead → BlockHead} {ns ms : List Node}
    (h : mapHeadsAll f ns = mapHeadsAll f ms) {b : NamedBlock} (hb : b ∈ blocksAll ns) :
    ∃ c ∈ blocksAll ms, f b.head = f c.head ∧ mapHeadsAll f b.nodes = mapHeadsAll f c.nodes := by
  have hm : (⟨f b.head, mapHeadsAll f b.nodes⟩ : NamedBlock) ∈ blocksAll (mapHeadsAll f ms) := by
    rw [← h, blocksAll_mapHeadsAll]
    exact List.mem_map_of_mem hb
  rw [blocksAll_mapHeadsAll] at hm
  obtain ⟨c, hc, he⟩ := List.mem_map.mp hm
  injection he with hh hn
  exact ⟨c, hc, hh.symm, hn.symm⟩

/-- Trees that agree under a change of heads agree under every change that forgets more. -/
theorem mapHeadsAll_eq_of_comp {f g k : BlockHead → BlockHead} {ns ms : List Node}
    (h : mapHeadsAll f ns = mapHeadsAll f ms)
    (hn : ∀ b ∈ blocksAll ns, k b.head = g (f b.head))
    (hm : ∀ b ∈ blocksAll ms, k b.head = g (f b.head)) :
    mapHeadsAll k ns = mapHeadsAll k ms := by
  calc
    mapHeadsAll k ns = mapHeadsAll g (mapHeadsAll f ns) := by
      rw [mapHeadsAll_mapHeadsAll, mapHeadsAll_congr (g := fun h ↦ g (f h)) hn]
    _ = mapHeadsAll g (mapHeadsAll f ms) := by rw [h]
    _ = mapHeadsAll k ms := by
      rw [mapHeadsAll_mapHeadsAll, ← mapHeadsAll_congr (f := k) (g := fun h ↦ g (f h)) hm]

/-- Overriding, seen through a change of heads. -/
theorem mapHeadsAll_overrideAll {f : BlockHead → BlockHead} {p p' : BlockHead → Bool}
    {mode : Mode} {content ns : List Node} (h : ∀ b ∈ blocksAll ns, p' b.head = p (f b.head)) :
    mapHeadsAll f (overrideAll p' mode content ns) =
      overrideAll p mode (mapHeadsAll f content) (mapHeadsAll f ns) := by
  let both (k : BlockHead) (xs : List Node) : Node :=
    .block (f k) (if p (f k) then mode.combine xs (mapHeadsAll f content) else xs)
  have hl : mapHeadsAll f (overrideAll p' mode content ns) = mapBlocksAll both ns := by
    apply mapBlocksAll_mapBlocksAll
    intro b hb xs
    change Node.block (f b.head) (mapHeadsAll f
      (if p' b.head then mode.combine xs content else xs)) = _
    rw [h b hb, apply_ite (mapHeadsAll f), mapHeadsAll_combine]
    rfl
  have hr : overrideAll p mode (mapHeadsAll f content) (mapHeadsAll f ns) =
      mapBlocksAll both ns :=
    mapBlocksAll_mapBlocksAll fun _ _ _ ↦ rfl
  rw [hl, hr]

/-- Overriding by number, seen through a change of heads. -/
theorem mapHeadsAll_amendAll {f : BlockHead → BlockHead} {p : BlockHead → Bool}
    {targets : List BlockId} {mode : Mode} {content ns : List Node}
    (h : ∀ b ∈ blocksAll ns, b.head.isAmong targets = p (f b.head)) :
    mapHeadsAll f (amendAll targets mode content ns) =
      overrideAll p mode (mapHeadsAll f content) (mapHeadsAll f ns) := by
  rw [amendAll_eq_overrideAll]
  exact mapHeadsAll_overrideAll h

/-! ### Blocks under overrides -/

/-- Overriding blocks that are not there changes nothing. -/
theorem amendAll_eq_self {targets : List BlockId} {mode : Mode} {content ns : List Node}
    (h : ∀ b ∈ blocksAll ns, b.head.isAmong targets = false) :
    amendAll targets mode content ns = ns := by
  rw [amendAll_eq_overrideAll]
  exact mapBlocksAll_eq_self fun b hb ↦ by simp [h b hb]

theorem amendAll_without_targets (mode : Mode) (content ns : List Node) :
    amendAll [] mode content ns = ns :=
  amendAll_eq_self fun b _ ↦ by cases hi : b.head.id <;> simp [BlockHead.isAmong, hi]

theorem mem_blocksAll_combine {mode : Mode} {own override : List Node} {b : NamedBlock}
    (hb : b ∈ blocksAll (mode.combine own override)) :
    b ∈ blocksAll own ∨ b ∈ blocksAll override := by
  cases mode with
  | replace => exact .inr hb
  | append => simpa [Mode.combine] using hb
  | prepend => simpa [Mode.combine, or_comm] using hb

/-- A block of an overridden tree was there before, with content that was overridden like the
tree and, in a target, combined with the new content; or it belongs to the new content. -/
theorem mem_blocksAll_amendAll {targets : List BlockId} {mode : Mode} {content ns : List Node}
    {b : NamedBlock} (hb : b ∈ blocksAll (amendAll targets mode content ns)) :
    (∃ xs, ⟨b.head, xs⟩ ∈ blocksAll ns ∧
      b.nodes = if b.head.isAmong targets then
        mode.combine (amendAll targets mode content xs) content
        else amendAll targets mode content xs) ∨
      b ∈ blocksAll content := by
  induction ns using forest_induction with
  | nil => cases hb
  | leaf n ns hn ih =>
    simp only [amendAll, amend_leaf hn, blocksAll_cons, blocks_leaf hn, List.nil_append] at hb ⊢
    exact ih hb
  | frame F inner ns ihi ih =>
    simp only [amendAll, amend_framed, blocksAll_cons, blocks_framed, List.mem_append] at hb ⊢
    grind
  | block h inner ns ihi ih =>
    have hc := @mem_blocksAll_combine mode (amendAll targets mode content inner) content b
    simp only [amendAll, amend_block, blocksAll_cons, blocks_block, List.cons_append,
      List.mem_cons, List.mem_append] at hb ⊢
    grind

end Node
end Templating
