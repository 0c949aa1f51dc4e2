import Templating.Proofs.Linking.Merging
import Templating.Proofs.Linking.Standalone
import Templating.Proofs.Linking.Yielding
import Templating.Proofs.Node.Flat

/-!
# Renumbered trees

Another numbering of the named blocks of a tree, on their heads and in the lineages noted there.
The passes over a tree go through it; overriding by number does so as long as different numbers stay
different.
-/

namespace Templating

namespace Node

/-! ### Passes under a change of heads -/

section

variable {g : BlockHead → BlockHead}

/-- A group stands where a dissolved block stood. -/
theorem dissolveAll_mapHeadsAll (hg : ∀ h, (g h).position = h.position) (ns : List Node) :
    dissolveAll (mapHeadsAll g ns) = dissolveAll ns := by
  rw [dissolveAll_eq_mapBlocksAll, dissolveAll_eq_mapBlocksAll]
  exact mapBlocksAll_mapBlocksAll fun b _ xs ↦ by simp [mapBlocks, hg]

theorem blockNamesAll_mapHeadsAll (hg : ∀ h, (g h).name = h.name) (ns : List Node) :
    blockNamesAll (mapHeadsAll g ns) = blockNamesAll ns := by
  unfold mapHeadsAll
  induction ns using forest_induction with
  | nil => rfl
  | leaf n ns hn ih => simp [blockNamesAll, mapBlocks_leaf hn, ih]
  | frame F inner ns ihi ih =>
    have hframed : ∀ ns, blockNames (framed F ns) = blockNamesAll ns := by
      cases F <;> exact fun _ ↦ rfl
    simp [blockNamesAll, hframed, ihi, ih]
  | block h inner ns ihi ih => simp [blockNamesAll, blockNames, hg, ihi, ih]

theorem outermostAll_mapHeadsAll (hg : ∀ h, (g h).name = h.name) (around : List String)
    (ns : List Node) :
    outermostAll around (mapHeadsAll g ns) =
      (outermostAll around ns).map fun b ↦ ⟨g b.head, mapHeadsAll g b.nodes⟩ := by
  unfold mapHeadsAll
  induction ns using forest_induction generalizing around with
  | nil => rfl
  | leaf n ns hn ih => simp [outermostAll, mapBlocks_leaf hn, outermost_leaf hn, ih]
  | frame F inner ns ihi ih => simp [outermostAll, outermost_framed, ihi, ih]
  | block h inner ns ihi ih =>
    by_cases hn : h.name ∈ around <;> simp [outermostAll, outermost, hg, hn, ihi, ih]

end

end Node

open Node

/-! ### Other numbers -/

/-- The head with other numbers. -/
def BlockHead.rename (f : BlockId → BlockId) (h : BlockHead) : BlockHead :=
  { h with id := h.id.map f, parents := h.parents.map (List.map f) }

/-- The head with another number and lineage is the same if neither is there. -/
theorem BlockHead.rename_eq_self {f : BlockId → BlockId} {h : BlockHead}
    (hid : ∀ i ∈ h.id, f i = i) (hparents : ∀ ts ∈ h.parents, ∀ t ∈ ts, f t = t) :
    h.rename f = h := by
  obtain ⟨name, mode, position, id, parents, ignored⟩ := h
  have hid' : id.map f = id := by
    cases id with
    | none => rfl
    | some i => exact congrArg some (hid i rfl)
  have hparents' : parents.map (List.map f) = parents := by
    cases parents with
    | none => rfl
    | some ts => exact congrArg some (by simpa using List.map_congr_left (hparents ts rfl))
  simp only [BlockHead.rename, hid', hparents']

namespace Node

section

variable {f : BlockId → BlockId}

theorem mapHeadsAll_rename_eq_self {ns : List Node}
    (hid : ∀ b ∈ blocksAll ns, ∀ i ∈ b.head.id, f i = i)
    (hparents : ∀ b ∈ blocksAll ns, ∀ ts ∈ b.head.parents, ∀ t ∈ ts, f t = t) :
    mapHeadsAll (.rename f) ns = ns :=
  mapBlocksAll_eq_self fun b hb ↦ by
    rw [BlockHead.rename_eq_self (hid b hb) (hparents b hb)]

theorem mapHeadsAll_rename_id (ns : List Node) : mapHeadsAll (.rename id) ns = ns :=
  mapHeadsAll_rename_eq_self (fun _ _ _ _ ↦ rfl) fun _ _ _ _ _ _ ↦ rfl

theorem isAmong_rename (hf : Function.Injective f) (h : BlockHead) (targets : List BlockId) :
    (h.rename f).isAmong (targets.map f) = h.isAmong targets := by
  cases hi : h.id with
  | none => simp [BlockHead.isAmong, BlockHead.rename, hi]
  | some i => simp [BlockHead.isAmong, BlockHead.rename, hi, hf.eq_iff]

/-- Overriding by number goes through another numbering. -/
theorem mapHeadsAll_rename_amendAll (hf : Function.Injective f) (targets : List BlockId)
    (mode : Mode) (content ns : List Node) :
    mapHeadsAll (.rename f) (amendAll targets mode content ns) =
      amendAll (targets.map f) mode (mapHeadsAll (.rename f) content)
        (mapHeadsAll (.rename f) ns) := by
  rw [amendAll_eq_overrideAll (targets.map f)]
  exact mapHeadsAll_amendAll fun b _ ↦ (isAmong_rename hf b.head targets).symm

end

end Node

/-- A sequence with other numbers of its named blocks. -/
abbrev Block.rename (f : BlockId → BlockId) (b : Block) : Block :=
  b.mapHeads (BlockHead.rename f)

end Templating
