import Templating.Node.Listing
import Templating.Proofs.Linking.Induction
import Templating.Proofs.Node.Overriding

/-!
# Documents without references

Expansion has nothing to do in a document that refers to no other file. What a document of a chain
may hold at its top is told by its nodes outside groups.
-/

namespace Templating.Node

/-- The nodes refer to no other file. -/
def Standalone (ns : List Node) : Prop :=
  ∀ n ∈ listingAll ns, n.isInherits = false ∧ n.isInclusion = false

instance (ns : List Node) : Decidable (Standalone ns) :=
  inferInstanceAs (Decidable (∀ n ∈ listingAll ns, n.isInherits = false ∧ n.isInclusion = false))

theorem mem_listing_self (n : Node) : n ∈ n.listing := by
  cases n <;> simp [listing]

theorem mem_listingAll_of_mem {n : Node} {ns : List Node} (h : n ∈ ns) : n ∈ listingAll ns := by
  induction ns with
  | nil => cases h
  | cons m ns ih =>
    rw [listingAll, List.mem_append]
    rcases List.mem_cons.mp h with rfl | h
    · exact .inl (mem_listing_self n)
    · exact .inr (ih h)

theorem Standalone.of_cons {n : Node} {ns : List Node} (h : Standalone (n :: ns)) :
    (n.isInherits = false ∧ n.isInclusion = false) ∧ Standalone ns :=
  ⟨h n (mem_listingAll_of_mem List.mem_cons_self), fun m hm ↦ h m (by simp [listingAll, hm])⟩

theorem Standalone.of_framed {F : Frame} {inner ns : List Node}
    (h : Standalone (framed F inner :: ns)) : Standalone inner := by
  intro m hm
  apply h m
  cases F <;> simp [framed, listing, listingAll, listingBody, hm]

theorem Standalone.of_block {k : BlockHead} {inner ns : List Node}
    (h : Standalone (.block k inner :: ns)) : Standalone inner := by
  intro m hm
  exact h m (by simp [listing, listingAll, hm])

theorem firstInheritAll_eq_none {ns : List Node} (h : ∀ n ∈ listingAll ns, n.isInherits = false) :
    firstInheritAll ns = none := by
  induction ns using forest_induction with
  | nil => rfl
  | leaf n ns hn ih =>
    have hfirst : firstInherit n = none := by
      cases n, hn using leaf_cases with
      | inherits f d p => cases h (.inherits f d p) (by simp [listingAll, listing])
      | _ => rfl
    simp [firstInheritAll, hfirst, ih fun m hm ↦ h m (by simp [listingAll, hm])]
  | frame F inner ns ihi ih =>
    have hfirst : firstInherit (framed F inner) = firstInheritAll inner := by cases F <;> rfl
    have hinner : firstInheritAll inner = none :=
      ihi fun m hm ↦ h m (by cases F <;> simp [framed, listingAll, listing, listingBody, hm])
    simp [firstInheritAll, hfirst, hinner, ih fun m hm ↦ h m (by simp [listingAll, hm])]
  | block k inner ns ihi ih =>
    have hinner : firstInheritAll inner = none :=
      ihi fun m hm ↦ h m (by simp [listingAll, listing, hm])
    simp [firstInheritAll, firstInherit, hinner, ih fun m hm ↦ h m (by simp [listingAll, hm])]

/-- There is nothing to expand without references. -/
theorem expandAll_eq_ok {ns : List Node} (h : Standalone ns) (s : Nat) :
    expandAll ns s = .ok (ns, s) := by
  suffices hcons : ∀ n ns, expand n s = .ok (n, s) → expandAll ns s = .ok (ns, s) →
      expandAll (n :: ns) s = .ok (n :: ns, s) by
    induction ns using forest_induction with
    | nil => rfl
    | leaf n ns hn ih =>
      refine hcons n ns ?_ (ih h.of_cons.2)
      cases n, hn using leaf_cases with
      | includes => exact absurd h.of_cons.1.2 (by simp [isInclusion])
      | includesRaw => exact absurd h.of_cons.1.2 (by simp [isInclusion])
      | _ => rfl
    | frame F inner ns ihi ih =>
      refine hcons _ ns ?_ (ih h.of_cons.2)
      have hinner := ihi h.of_framed
      cases F with
      | includes => exact absurd h.of_cons.1.2 (by simp [framed, isInclusion])
      | mixin k p =>
        simp only [framed, expand, expandBody, Link.bind_eq_ok, Link.pure_eq_ok]
        exact ⟨_, s, ⟨inner, s, hinner, rfl⟩, rfl⟩
      | _ =>
        simp only [framed, expand, Link.bind_eq_ok, Link.pure_eq_ok]
        exact ⟨inner, s, hinner, rfl⟩
    | block k inner ns ihi ih =>
      refine hcons _ ns ?_ (ih h.of_cons.2)
      simp only [expand, Link.bind_eq_ok, Link.pure_eq_ok]
      exact ⟨inner, s, ihi h.of_block, rfl⟩
  intro n ns hn hns
  simp only [expandAll, Link.bind_eq_ok, Link.pure_eq_ok]
  exact ⟨n, s, hn, ns, s, hns, rfl⟩

/-! ### The top of a document -/

mutual

/-- The node, or the nodes in it if it is a group. -/
def topLevel : Node → List Node
  | .group ⟨ns, _⟩ => topLevelAll ns
  | n => [n]
  termination_by structural n => n

/-- The nodes at the top of a document, groups apart. -/
def topLevelAll : List Node → List Node
  | [] => []
  | n :: ns => topLevel n ++ topLevelAll ns
  termination_by structural ns => ns

end

/-- The node is a named block. -/
def isBlock : Node → Bool
  | .block .. => true
  | _ => false

/-- The node is a group. -/
def isGroup : Node → Bool
  | .group _ => true
  | _ => false

/-- Induction on the top of a document. -/
@[elab_as_elim]
theorem top_induction {motive : List Node → Prop} (nil : motive [])
    (group : ∀ inner p ns, motive inner → motive ns → motive (.group ⟨inner, p⟩ :: ns))
    (other : ∀ n ns, n.isGroup = false → motive ns → motive (n :: ns)) (ns : List Node) :
    motive ns := by
  induction ns using forest_induction with
  | nil => exact nil
  | leaf n ns hn ih => exact other n ns (by cases n, hn using leaf_cases <;> rfl) ih
  | frame F inner ns ihi ih =>
    cases F with
    | group p => exact group inner p ns ihi ih
    | _ => exact other _ ns rfl ih
  | block h inner ns _ ih => exact other _ ns rfl ih

theorem exists_group_of_isGroup {n : Node} (h : n.isGroup) : ∃ b, n = .group b := by
  cases n with
  | group b => exact ⟨b, rfl⟩
  | _ => cases h

theorem topLevel_of_not_group {n : Node} (h : n.isGroup = false) : topLevel n = [n] := by
  cases n <;> first | rfl | cases h

theorem topMixins_of_not_group {n : Node} (h : n.isGroup = false) :
    topMixins n = if n.isMixinDefinition then [n] else [] := by
  cases n <;> first | rfl | cases h

theorem topMixinsAll_eq_filter (ns : List Node) :
    topMixinsAll ns = (topLevelAll ns).filter (·.isMixinDefinition) := by
  induction ns using top_induction with
  | nil => rfl
  | group inner p ns ihi ih => simp [topMixinsAll, topMixins, topLevelAll, topLevel, ihi, ih]
  | other n ns hn ih =>
    simp [topMixinsAll, topMixins_of_not_group hn, topLevelAll, topLevel_of_not_group hn, ih,
      List.filter_cons]
    split <;> rfl

section

variable {f : BlockHead → BlockHead}

theorem isGroup_mapHeads (n : Node) :
    (mapBlocks (fun h xs ↦ .block (f h) xs) n).isGroup = n.isGroup := by
  match n with
  | .includes _ _ none _ | .includes _ _ (some _) _ | .mixin _ none | .mixin _ (some _)
  | .group _ | .block .. | .inherits .. | .includesRaw .. | .filter .. | .yield _ | .text ..
  | .tag .. => rfl

theorem isMixinDefinition_mapHeads (n : Node) :
    (mapBlocks (fun h xs ↦ .block (f h) xs) n).isMixinDefinition = n.isMixinDefinition := by
  match n with
  | .includes _ _ none _ | .includes _ _ (some _) _ | .mixin _ none | .mixin _ (some _)
  | .group _ | .block .. | .inherits .. | .includesRaw .. | .filter .. | .yield _ | .text ..
  | .tag .. => rfl

/-- Mixin definitions are found whatever stands on the heads of blocks. -/
theorem mapHeadsAll_topMixinsAll (ns : List Node) :
    mapHeadsAll f (topMixinsAll ns) = topMixinsAll (mapHeadsAll f ns) := by
  unfold mapHeadsAll
  induction ns using top_induction with
  | nil => rfl
  | group inner p ns ihi ih => simp [topMixinsAll, topMixins, mapBlocks, ihi, ih]
  | other n ns hn ih =>
    have hm : (mapBlocks (fun h xs ↦ .block (f h) xs) n).isGroup = false := by
      rw [isGroup_mapHeads, hn]
    simp only [topMixinsAll, mapBlocksAll_cons, topMixins_of_not_group hn,
      topMixins_of_not_group hm, isMixinDefinition_mapHeads, mapBlocksAll_append, ih]
    split <;> rfl

/-- So are the blocks at the top, if names and places stay. -/
theorem overridesAll_mapHeadsAll (hf : ∀ h, (f h).name = h.name ∧ (f h).position = h.position)
    (ns : List Node) : overridesAll (mapHeadsAll f ns) = overridesAll ns := by
  unfold mapHeadsAll
  induction ns using top_induction with
  | nil => rfl
  | group inner p ns ihi ih =>
    simp only [mapBlocksAll_cons, mapBlocks, overridesAll, overrides, ihi, ih]
  | other n ns hn ih =>
    have hhead : overrides (mapBlocks (fun h xs ↦ .block (f h) xs) n) = overrides n := by
      match n with
      | .block h _ => simp [overrides, hf]
      | .group _ => cases hn
      | .includes _ _ none _ | .includes _ _ (some _) _ | .mixin _ none | .mixin _ (some _)
      | .inherits .. | .includesRaw .. | .filter .. | .yield _ | .text .. | .tag .. => rfl
    simp only [mapBlocksAll_cons, overridesAll, hhead, ih]

end

/-- Numbers and marks do not matter to the top of a document. -/
theorem bareAll_topMixinsAll_congr {ns ms : List Node} (h : bareAll ns = bareAll ms) :
    bareAll (topMixinsAll ns) = bareAll (topMixinsAll ms) := by
  calc
    bareAll (topMixinsAll ns) = topMixinsAll (bareAll ns) := mapHeadsAll_topMixinsAll ns
    _ = topMixinsAll (bareAll ms) := by rw [h]
    _ = bareAll (topMixinsAll ms) := (mapHeadsAll_topMixinsAll ms).symm

theorem overridesAll_congr {ns ms : List Node} (h : bareAll ns = bareAll ms) :
    overridesAll ns = overridesAll ms := by
  have hbare : ∀ ns, overridesAll (bareAll ns) = overridesAll ns :=
    overridesAll_mapHeadsAll (f := BlockHead.bare) fun _ ↦ ⟨rfl, rfl⟩
  rw [← hbare ns, h, hbare ms]

theorem exists_mixin_of_isMixinDefinition {n : Node} (h : n.isMixinDefinition) :
    ∃ k b, n = .mixin k b ∧ k.isCall = false := by
  cases n with
  | mixin k b => exact ⟨k, b, rfl, by simpa [isMixinDefinition] using h⟩
  | _ => cases h

theorem exists_block_of_isBlock {n : Node} (h : n.isBlock) : ∃ k inner, n = .block k inner := by
  cases n with
  | block k inner => exact ⟨k, inner, rfl⟩
  | _ => cases h

/-- A document with mixin definitions and named blocks at its top can inherit. -/
theorem overridesAll_eq_ok {ns : List Node}
    (h : ∀ n ∈ topLevelAll ns, n.isMixinDefinition ∨ n.isBlock) :
    ∃ os, overridesAll ns = .ok os ∧ ∀ o ∈ os, ∃ b ∈ blocksAll ns, b.head.name = o.1 := by
  suffices hcons : ∀ n ns found others, overrides n = .ok found → overridesAll ns = .ok others →
      (∀ o ∈ found, ∃ b ∈ blocks n, b.head.name = o.1) →
      (∀ o ∈ others, ∃ b ∈ blocksAll ns, b.head.name = o.1) →
      ∃ os, overridesAll (n :: ns) = .ok os ∧
        ∀ o ∈ os, ∃ b ∈ blocksAll (n :: ns), b.head.name = o.1 by
    induction ns using top_induction with
    | nil => exact ⟨[], rfl, by simp⟩
    | group inner p ns ihi ih =>
      simp only [topLevelAll, topLevel, List.forall_mem_append] at h
      obtain ⟨found, hfound, hf⟩ := ihi h.1
      obtain ⟨others, hothers, ho⟩ := ih h.2
      exact hcons _ ns found others hfound hothers hf ho
    | other n ns hn ih =>
      simp only [topLevelAll, topLevel_of_not_group hn, List.forall_mem_append,
        List.forall_mem_singleton] at h
      obtain ⟨others, hothers, ho⟩ := ih h.2
      rcases h.1 with hm | hb
      · obtain ⟨k, b, rfl, hk⟩ := exists_mixin_of_isMixinDefinition hm
        exact hcons _ ns [] others (by simp [overrides, hk]) hothers (by simp) ho
      · obtain ⟨k, inner, rfl⟩ := exists_block_of_isBlock hb
        exact hcons _ ns [(k.name, k.position)] others rfl hothers (by simp [blocks]) ho
  intro n ns found others hfound hothers hf ho
  refine ⟨found ++ others, by simp [overridesAll, hfound, hothers], ?_⟩
  intro o hmem
  rcases List.mem_append.mp hmem with hmem | hmem
  · obtain ⟨b, hb, he⟩ := hf o hmem
    exact ⟨b, by simp [hb], he⟩
  · obtain ⟨b, hb, he⟩ := ho o hmem
    exact ⟨b, by simp [hb], he⟩

end Templating.Node
