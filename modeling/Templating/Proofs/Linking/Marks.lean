import Templating.Proofs.Linking.Shifting
import Templating.Proofs.Linking.Soundness

/-!
# Marks of merged blocks

A merge notes on a block of the child the blocks of the parent that it was merged into. Only
inheriting documents have such marks after their link (`linkCases_noMarks`), and the numbers noted
there were drawn by that link (`lt_of_mem_parents`).
-/

namespace Templating

open Node

namespace Node

/-- No block has been merged into blocks of a parent. -/
def NoMarks (ns : List Node) : Prop := ∀ b ∈ blocksAll ns, b.head.parents = none

theorem NoMarks.declareAll {ns : List Node} (h : NoMarks ns) (s : BlockId × Registry) :
    NoMarks (declareAll ns s).1 := by
  have hkeep : ∀ ns s, (blocksAll (Node.declareAll ns s).1).map (·.head.parents) =
      (blocksAll ns).map (·.head.parents) := by
    intro ns s
    induction ns using forest_induction generalizing s with
    | nil => rfl
    | leaf n ns hn ih => simp [declareAll_cons, declare_leaf hn, ih]
    | frame F inner ns ihi ih => simp [declareAll_cons, declare_framed, ihi, ih]
    | block k inner ns ihi ih =>
      obtain ⟨last, r⟩ := s
      simp [declareAll_cons, declare_block, numbered, ihi, ih]
  intro b hb
  have hmem := List.mem_map_of_mem (f := fun b : NamedBlock ↦ b.head.parents) hb
  rw [hkeep] at hmem
  obtain ⟨c, hc, he⟩ := List.mem_map.mp hmem
  exact he.symm.trans (h c hc)

theorem NoMarks.takeIn {root : Block} (hr : NoMarks root.nodes) {content : Option Block}
    (hc : ∀ c ∈ content, NoMarks c.nodes) : NoMarks (root.takeIn content).nodes := by
  obtain ⟨_, -, hmem⟩ := exists_mem_blocksAll_takeIn root content
  intro b hb
  rcases hmem b hb with ⟨xs, hxs, -⟩ | ⟨c, hcc, hbc⟩
  · exact hr ⟨b.head, xs⟩ hxs
  · exact hc c hcc b hbc

end Node

theorem Linked.noMarks_embedded {l : Linked} (h : l.inherits = false → NoMarks l.root.nodes) :
    NoMarks l.embedded.nodes := by
  unfold Linked.embedded
  split
  · intro b hb
    simp [blocksAll_dissolveAll] at hb
  · next hi => exact h (by simpa using hi)

/-- Merges leave marks only in inheriting documents, whose blocks are dissolved at include
sites. -/
theorem linkCases_noMarks :
    LinkCases (fun d _ l _ _ ↦ d.Unlinked → l.inherits = false → NoMarks l.root.nodes)
      (fun ns _ ns' _ ↦ UnlinkedAll ns → NoMarks ns') where
  base ns p s ns' s' _ _ ih hu _ := (ih (unlinked_group.mp hu)).declareAll _
  inherit f d q ns p s ns' s' overrides parent s'' gs l _ _ _ _ hl _ hi := by
    obtain ⟨-, rfl⟩ := Linked.inherit_eq_ok.mp hl
    cases hi
  nil _ _ := by simp [NoMarks]
  cons n ns s n' s' ns' s'' ihn ih hu := by
    obtain ⟨hn, hns⟩ := unlinkedAll_cons.mp hu
    have hhead := ihn (unlinkedAll_singleton.mpr hn)
    simp only [NoMarks, blocksAll_cons, blocksAll_nil, List.append_nil,
      List.forall_mem_append] at hhead ⊢
    exact ⟨hhead, ih hns⟩
  framed F ns s ns' s' _ ih hu := by
    simpa [NoMarks] using ih hu.of_framed
  block k ns s ns' s' ih hu := by
    obtain ⟨hk, hns⟩ := unlinked_block.mp (unlinkedAll_singleton.mp hu)
    simpa [NoMarks, hk.2] using ih hns
  leaf n s hn _ _ := by simp [NoMarks, blocks_leaf hn]
  includesRaw f d us p s t _ _ := by simp [NoMarks, blocks]
  includes f d p s l s' gs ih hu := by
    have hl := Linked.noMarks_embedded (ih (unlinkedAll_singleton.mp hu).document)
    simpa [NoMarks, blocks] using hl
  includesWith f d ns q p s ns' s' l s'' gs ih ihd hu := by
    have hu := unlinkedAll_singleton.mp hu
    have hl := Linked.noMarks_embedded (ihd hu.document)
    have hsite : NoMarks (l.embedded.takeIn (some ⟨ns', q⟩)).nodes :=
      hl.takeIn (by simpa using ih hu.body)
    simpa [NoMarks, blocks] using hsite

/-- A mark that is there after a merge was there before, or consists of the targets of a name. -/
theorem parents_fst_mergeAll {r : Registry} {around : List String} {ns : List Node} {m : Merging}
    {b : NamedBlock} (hb : b ∈ blocksAll (mergeAll r around ns m).1) {ts : List BlockId}
    (hts : b.head.parents = some ts) :
    (∃ c ∈ blocksAll ns, c.head.parents = some ts) ∨ ∃ name, ts = r.targets name := by
  induction ns using forest_induction generalizing around m with
  | nil => cases hb
  | leaf n ns hn ih =>
    simp only [mergeAll_cons, mergeNode_leaf hn, blocksAll_cons, blocks_leaf hn,
      List.nil_append] at hb ⊢
    exact ih hb
  | frame F inner ns ihi ih =>
    simp only [mergeAll_cons, mergeNode_framed, blocksAll_cons, blocks_framed,
      List.mem_append] at hb ⊢
    grind
  | block k inner ns ihi ih =>
    have hmark : ∀ ts, (r.mark k).parents = some ts →
        k.parents = some ts ∨ ts = r.targets k.name := by
      intro ts h
      unfold Registry.mark at h
      split at h
      · exact .inl h
      · exact .inr (Option.some.inj h).symm
    simp only [blocksAll_cons, blocks_block, List.cons_append, List.mem_cons, List.mem_append]
    by_cases hn : k.name ∈ around
    · simp only [mergeAll_cons, mergeNode_block_of_mem hn, blocksAll_cons, blocks_block,
        List.cons_append, List.mem_cons, List.mem_append] at hb
      rcases hb with rfl | hb | hb
      · exact .inl ⟨⟨k, inner⟩, .inl rfl, hts⟩
      · grind
      · grind
    · simp only [mergeAll_cons, mergeNode_block_of_not_mem hn, blocksAll_cons, blocks_block,
        List.cons_append, List.mem_cons, List.mem_append] at hb
      rcases hb with rfl | hb | hb
      · exact (hmark ts hts).imp (fun h ↦ ⟨⟨k, inner⟩, .inl rfl, h⟩) fun h ↦ ⟨k.name, h⟩
      · grind
      · grind

/-- The numbers in the marks of a linked document were drawn by its link. -/
theorem lt_of_mem_parents {d : Node} (hd : d.Unlinked) {s s' : Nat} {l : Linked}
    (h : linkNode d s = .ok (l, s')) :
    ∀ b ∈ blocksAll l.root.nodes, ∀ ts ∈ b.head.parents, ∀ t : Nat, t ∈ ts → s < t := by
  refine linkNode_induction (motive := fun d s l _ ↦ d.Unlinked → ∀ b ∈ blocksAll l.root.nodes,
    ∀ ts ∈ b.head.parents, ∀ t : Nat, t ∈ ts → s < t) ?base ?inherit d h hd
  case base =>
    intro ns p s ns' s' hhead hns hu b hb ts hts
    have hmarks := (linkCases_noMarks.expandAll ns hns (unlinked_group.mp hu)).declareAll
      (s', .empty)
    rw [hmarks b hb] at hts
    cases hts
  case inherit =>
    intro f d q ns p s ns' s' overrides parent s'' l hns hparent ih hl hu b hb ts hts t ht
    obtain ⟨hud, hun⟩ := unlinkedAll_cons.mp (unlinked_group.mp hu)
    have hmarks := (linkCases_noMarks.expandAll ns hns hun).declareAll (s', .empty)
    have hc := (linkCases_sound.expandAll ns hns hun.unnumbered).declare
    obtain ⟨gs, -, hp⟩ := Linked.sound (unlinked_inherits.mp hud).unnumbered hparent
    obtain ⟨-, rfl⟩ := Linked.inherit_eq_ok.mp hl
    have hle := hc.le
    rcases (hp.merged hc).block hb with hb | ⟨-, xs, hxs⟩
    · rcases parents_fst_mergeAll hb hts with ⟨c, hc, hcts⟩ | ⟨name, rfl⟩
      · rw [hmarks c hc] at hcts
        cases hcts
      · exact Nat.lt_of_le_of_lt hle (hp.lt_target name t ht)
    · exact Nat.lt_of_le_of_lt hle (ih (unlinked_inherits.mp hud) _ hxs ts hts t ht)

end Templating
