import Templating.Proofs.Linking.Overridden

/-!
# Merging into a linked parent

The result of merging a declared document into its linked parent is sound when the parent is
(`Linked.Sound.inherit`). The blocks of the child are the first generation of the result. They are
the targets of their names; those of the parent stay targets unless the child shuts their name off.
-/

namespace Templating

open Node

/-! ### The registry of the result -/

section

variable {s s' s'' : Nat} {child : List Node} {r : Registry} {parent : Linked}
  {gs : List Generation}

theorem get_lineage_mergeAll (ns : List Node) (m : String) :
    (mergeAll parent.declared [] child ⟨ns, r⟩).2.lineage.get m = r.get m := by
  unfold Registry.get
  rw [blocks_lineage_mergeAll]

/-- Lineages after a merge are those of outermost blocks of the child. -/
theorem Declared.exists_of_parentsOf? (hc : Declared s child r s') {ns : List Node} {i : Nat}
    {ts : List BlockId}
    (h : (mergeAll parent.declared [] child ⟨ns, r⟩).2.lineage.parentsOf? i = some ts) :
    ∃ b ∈ outermostAll [] child, b.head.id = some i ∧
      parent.declared.targets b.head.name ≠ [] ∧ ts = parent.declared.targets b.head.name := by
  rcases parentsOf?_mergeAll h with h | h
  · simp [Registry.parentsOf?, hc.registers.parents] at h
  · exact h

/-- The merged child lies over its parent. -/
theorem Linked.Sound.liesOver (hp : parent.Sound s' s'' gs) (hc : Declared s child r s')
    (ns : List Node) :
    Registry.LiesOver (mergeAll parent.declared [] child ⟨ns, r⟩).2.lineage parent.declared
      s' where
  namesHaveBlocks := by
    intro m ids h
    rw [blocks_lineage_mergeAll] at h
    exact hc.registers.namesHaveBlocks m ids h
  get_le := by
    intro m i hi
    rw [get_lineage_mergeAll] at hi
    exact (hc.lt_of_mem_get hi).2
  parents_le := by
    intro i hi
    obtain ⟨ts, hts⟩ := Option.isSome_iff_exists.mp hi
    obtain ⟨b, hb, hbi, -⟩ := hc.exists_of_parentsOf? hts
    obtain ⟨j, hj, -, hle⟩ := hc.numbered b (mem_blocksAll_of_mem_outermostAll hb)
    rw [hbi, Option.some_inj] at hj
    omega
  lineage := by
    intro m i hi ts hts
    obtain ⟨b, hb, hbi, -, ht⟩ := hc.exists_of_parentsOf? hts
    rw [get_lineage_mergeAll, hc.mem_get_iff (mem_blocksAll_of_mem_outermostAll hb) hbi] at hi
    rw [ht, hi.1]
  lt_target := hp.lt_target
  lt_step := hp.lt_step

/-- The child keeps its parent's targets of a name if it does not shut the name off. -/
theorem Declared.lineage_iff (hc : Declared s child r s') {ns : List Node} {m : String}
    (ht : parent.declared.targets m ≠ []) (last : Nat) :
    ((mergeAll parent.declared [] child ⟨ns, r⟩).2.lineage.get m = [] ∨
      ∃ j ∈ (mergeAll parent.declared [] child ⟨ns, r⟩).2.lineage.get m,
        ((mergeAll parent.declared [] child ⟨ns, r⟩).2.lineage.parentsOf? j).isSome) ↔
      ¬ Generation.Shuts ⟨child, last⟩ m := by
  have hnil : r.get m = [] ↔
      ¬ ∃ b ∈ blocksAll child, b.head.name = m ∧ b.head.mode = .replace := by
    rw [List.eq_nil_iff_forall_not_mem, not_exists]
    constructor
    · rintro hno b ⟨hb, hname, hmode⟩
      obtain ⟨i, hi, -⟩ := hc.numbered b hb
      exact hno i ((hc.registers.mem_get m i).mpr ⟨b, hb, hname, hmode, hi⟩)
    · intro hno i hi
      obtain ⟨b, hb, hname, hmode, -⟩ := (hc.registers.mem_get m i).mp hi
      exact hno b ⟨hb, hname, hmode⟩
  have hlineage : (∃ j ∈ r.get m,
        ((mergeAll parent.declared [] child ⟨ns, r⟩).2.lineage.parentsOf? j).isSome) ↔
      ∃ b ∈ outermostAll [] child, b.head.name = m ∧ b.head.mode = .replace := by
    constructor
    · rintro ⟨j, hj, hs⟩
      obtain ⟨ts, hts⟩ := Option.isSome_iff_exists.mp hs
      obtain ⟨b, hb, hbi, -⟩ := hc.exists_of_parentsOf? hts
      exact ⟨b, hb, (hc.mem_get_iff (mem_blocksAll_of_mem_outermostAll hb) hbi m).mp hj⟩
    · rintro ⟨b, hb, hname, hmode⟩
      have hmem := mem_blocksAll_of_mem_outermostAll hb
      obtain ⟨i, hi, -⟩ := hc.numbered b hmem
      exact ⟨i, (hc.mem_get_iff hmem hi m).mpr ⟨hname, hmode⟩,
        isSome_parentsOf?_mergeAll (.inr ⟨b, hb, hi, hname ▸ ht⟩)⟩
  simp only [get_lineage_mergeAll]
  rw [hnil, hlineage, Generation.Shuts, Classical.not_and_iff_not_or_not]
  simp only [Classical.not_forall, ne_eq, Classical.not_not, exists_prop]

end

/-! ### The result -/

/-- The mixin definitions at the top of a document hold none but its blocks. -/
theorem mem_blocksAll_of_mem_topMixinsAll {ns : List Node} {b : NamedBlock}
    (hb : b ∈ blocksAll (topMixinsAll ns)) : b ∈ blocksAll ns := by
  induction ns using forest_induction with
  | nil => cases hb
  | leaf n ns hn ih =>
    have htop : blocksAll (topMixins n) = [] := by
      cases n, hn using leaf_cases with
      | mixin h =>
        by_cases hm : (Node.mixin h none).isMixinDefinition <;> simp [topMixins, hm, blocks]
      | _ => rfl
    simp only [topMixinsAll, blocksAll_append, htop, List.nil_append] at hb
    simp [ih hb]
  | frame F inner ns ihi ih =>
    have htop : b ∈ blocksAll (topMixins (framed F inner)) → b ∈ blocksAll inner := by
      cases F with
      | group p => exact ihi
      | mixin h p =>
        by_cases hm : (Node.mixin h (some ⟨inner, p⟩)).isMixinDefinition <;>
          simp [framed, topMixins, hm, blocks]
      | _ =>
        intro h
        cases h
    simp only [topMixinsAll, blocksAll_append, List.mem_append] at hb
    simpa using hb.imp htop ih
  | block h inner ns ihi ih =>
    have htop : topMixins (.block h inner) = [] := rfl
    simp only [topMixinsAll, htop, List.nil_append] at hb
    simp [ih hb]

/-- The names that are compared with those of the overrides. -/
theorem Node.blockNamesAll_eq (ns : List Node) :
    blockNamesAll ns = (blocksAll ns).map (·.head.name) := by
  induction ns using forest_induction with
  | nil => rfl
  | leaf n ns hn ih =>
    have hnone : blockNames n = [] := by cases n, hn using leaf_cases <;> rfl
    simp [blockNamesAll, hnone, blocks_leaf hn, ih]
  | frame F inner ns ihi ih =>
    have hf : blockNames (framed F inner) = blockNamesAll inner := by cases F <;> rfl
    simp [blockNamesAll, hf, ihi, ih]
  | block h inner ns ihi ih => simp [blockNamesAll, blockNames, ihi, ih]

/-- When a merge succeeds and what it gives. -/
theorem Linked.inherit_eq_ok {parent l : Linked} {child : List Node} {r : Registry}
    {overrides : List (String × Position)} :
    parent.inherit child r overrides = .ok l ↔
      (∀ o ∈ overrides, ∃ b ∈ blocksAll
        (mergeAll parent.declared [] child ⟨parent.root.nodes, r⟩).2.parent,
          b.head.name = o.1) ∧
      l =
        { root :=
            { parent.root with
              nodes :=
                topMixinsAll (mergeAll parent.declared [] child ⟨parent.root.nodes, r⟩).1 ++
                  (mergeAll parent.declared [] child ⟨parent.root.nodes, r⟩).2.parent }
          declared := parent.declared.overlay
            (mergeAll parent.declared [] child ⟨parent.root.nodes, r⟩).2.lineage
          inherits := true } := by
  have hnames : ∀ (ns : List Node) (name : String),
      name ∉ blockNamesAll ns ↔ ¬ ∃ b ∈ blocksAll ns, b.head.name = name := by
    intro ns name
    rw [blockNamesAll_eq, List.mem_map]
  unfold Linked.inherit
  simp only
  split
  · next name p hfind =>
    have hnot := List.find?_some hfind
    have hmem := List.mem_of_find?_eq_some hfind
    rw [decide_eq_true_iff, hnames] at hnot
    constructor
    · exact fun h ↦ by cases h
    · exact fun h ↦ absurd (h.1 _ hmem) hnot
  · next hfind =>
    have hall : ∀ o ∈ overrides, ∃ b ∈ blocksAll
        (mergeAll parent.declared [] child ⟨parent.root.nodes, r⟩).2.parent,
          b.head.name = o.1 := by
      intro o ho
      have hnone := List.find?_eq_none.mp hfind o ho
      rw [decide_eq_true_iff, hnames] at hnone
      exact Classical.not_not.mp hnone
    simp only [Except.ok.injEq]
    exact ⟨fun h ↦ ⟨hall, h.symm⟩, fun h ↦ h.2.symm⟩

/-- What is known of a merge: of the child with its marks, of the parent under the overrides, and
of the lineage. -/
structure Merged (s : Nat) (child : List Node) (r : Registry) (s' : Nat) (parent : Linked)
    (gs : List Generation) (M : List Node × Merging) : Prop where
  marked : Declared s M.1 r s'
  amended : Overridden M.1 parent.root.nodes s' (⟨child, s'⟩ :: gs) M.2.parent
  liesOver : M.2.lineage.LiesOver parent.declared s'
  get : ∀ m, M.2.lineage.get m = r.get m
  keeps : ∀ m, parent.declared.targets m ≠ [] →
    ((M.2.lineage.get m = [] ∨ ∃ j ∈ M.2.lineage.get m, (M.2.lineage.parentsOf? j).isSome) ↔
      ¬ Generation.Shuts ⟨child, s'⟩ m)
  lineage : ∀ i ts, M.2.lineage.parentsOf? i = some ts →
    ∃ b ∈ blocksAll child, b.head.id = some i ∧ parent.declared.targets b.head.name ≠ [] ∧
      ts = parent.declared.targets b.head.name

section

variable {s s' s'' : Nat} {child : List Node} {r : Registry} {parent l : Linked}
  {gs : List Generation} {overrides : List (String × Position)} {M : List Node × Merging}

theorem Linked.Sound.merged (hp : parent.Sound s' s'' gs) (hc : Declared s child r s') :
    Merged s child r s' parent gs
      (mergeAll parent.declared [] child ⟨parent.root.nodes, r⟩) := by
  have hm := hc.marked (unmarked_mergeAll parent.declared [] child ⟨parent.root.nodes, r⟩)
  refine ⟨hm, ?_, hp.liesOver hc _, get_lineage_mergeAll _, fun m ht ↦ hc.lineage_iff ht s', ?_⟩
  · rw [parent_mergeAll]
    exact (hp.overridden rfl).foldl_apply hp hm rfl fun b hb ↦
      mem_blocksAll_of_mem_outermostAll hb
  · intro i ts h
    obtain ⟨b, hb, hbi, ht⟩ := hc.exists_of_parentsOf? h
    exact ⟨b, mem_blocksAll_of_mem_outermostAll hb, hbi, ht⟩

namespace Merged

/-- A block of the result is one of the child or has the head of one of the parent. -/
theorem block (hM : Merged s child r s' parent gs M) {b : NamedBlock}
    (hb : b ∈ blocksAll (topMixinsAll M.1 ++ M.2.parent)) :
    b ∈ blocksAll M.1 ∨
      (b ∈ blocksAll M.2.parent ∧ ∃ xs, ⟨b.head, xs⟩ ∈ blocksAll parent.root.nodes) := by
  rw [blocksAll_append, List.mem_append] at hb
  rcases hb with hb | hb
  · exact .inl (mem_blocksAll_of_mem_topMixinsAll hb)
  · exact (hM.amended.block b hb).imp_right fun hx ↦ ⟨hb, hx⟩

theorem lt_target (hM : Merged s child r s' parent gs M) {m : String} {i : Nat}
    (hi : i ∈ (parent.declared.overlay M.2.lineage).targets m) : s < i := by
  rw [hM.liesOver.mem_targets_iff, hM.get] at hi
  have hle := hM.marked.le
  rcases hi with hi | ⟨hi, -⟩
  · exact (hM.marked.lt_of_mem_get hi).1
  · exact Nat.lt_of_le_of_lt hle (hM.liesOver.lt_target m i hi)

theorem lt_step (hM : Merged s child r s' parent gs M) (hc : Declared s child r s') {i p : Nat}
    (h : (parent.declared.overlay M.2.lineage).Step i p) : s < i ∧ s < p := by
  have hle := hM.marked.le
  obtain ⟨ts, hts, hpt⟩ := h
  rw [Registry.parentsOf?_overlay] at hts
  cases ho : M.2.lineage.parentsOf? i with
  | none =>
    have := hM.liesOver.lt_step i p ⟨ts, by simpa [ho] using hts, hpt⟩
    omega
  | some us =>
    obtain ⟨b, hb, hbi, -, rfl⟩ := hM.lineage i us ho
    have hlt := (hc.range hb hbi).1
    rw [ho, Option.some_or, Option.some_inj] at hts
    have := hM.liesOver.lt_target b.head.name p (hts ▸ hpt)
    omega

/-- The targets among the child's blocks are those it declares. -/
theorem covers_child (hM : Merged s child r s' parent gs M) (hgs : ∀ g ∈ gs, s' ≤ g.last)
    {b : NamedBlock} (hb : b ∈ blocksAll M.1) {i : Nat} (hi : b.head.id = some i) (m : String) :
    i ∈ (parent.declared.overlay M.2.lineage).targets m ↔
      b.head.name = m ∧ b.head.mode = .replace ∧
        ∀ g ∈ (⟨child, s'⟩ :: gs : List Generation), g.last < i → ¬ g.Shuts m := by
  have hle := (hM.marked.range hb hi).2
  have hno : i ∉ parent.declared.targets m := fun ht ↦ by
    have := hM.liesOver.lt_target m i ht
    omega
  have hvac : ∀ g ∈ (⟨child, s'⟩ :: gs : List Generation), g.last < i → ¬ g.Shuts m := by
    rw [List.forall_mem_cons]
    refine ⟨fun hlt ↦ ?_, fun g hg hlt ↦ ?_⟩
    · exact absurd hlt (by simp only; omega)
    · have := hgs g hg
      omega
  rw [hM.liesOver.mem_targets_iff, hM.get, hM.marked.mem_get_iff hb hi]
  simp only [hno, false_and, or_false]
  exact ⟨fun h ↦ ⟨h.1, h.2, hvac⟩, fun h ↦ ⟨h.1, h.2.1⟩⟩

/-- The targets among the parent's blocks are its own, unless the child shuts the name off. -/
theorem covers_parent (hM : Merged s child r s' parent gs M) (hp : parent.Sound s' s'' gs)
    {b : NamedBlock} (hb : b ∈ blocksAll parent.root.nodes) {i : Nat}
    (hi : b.head.id = some i) (m : String) :
    i ∈ (parent.declared.overlay M.2.lineage).targets m ↔
      b.head.name = m ∧ b.head.mode = .replace ∧
        ∀ g ∈ (⟨child, s'⟩ :: gs : List Generation), g.last < i → ¬ g.Shuts m := by
  have hlt := (hp.range hb hi).1
  have hno : i ∉ r.get m := fun hg ↦ by
    have := (hM.marked.lt_of_mem_get hg).2
    omega
  have hcover := hp.covers b hb i hi m
  rw [hM.liesOver.mem_targets_iff, hM.get, List.forall_mem_cons]
  simp only [hno, false_or, hlt, forall_const]
  constructor
  · rintro ⟨ht, hk⟩
    have hshut := (hM.keeps m (List.ne_nil_of_mem ht)).mp (by simpa only [hM.get] using hk)
    obtain ⟨hname, hmode, hall⟩ := hcover.mp ht
    exact ⟨hname, hmode, hshut, hall⟩
  · rintro ⟨hname, hmode, hshut, hall⟩
    have ht := hcover.mpr ⟨hname, hmode, hall⟩
    have hk := (hM.keeps m (List.ne_nil_of_mem ht)).mpr hshut
    exact ⟨ht, by simpa only [hM.get] using hk⟩

/-- The parent's targets of a name among the blocks of the result. -/
theorem mem_targets_iff (hM : Merged s child r s' parent gs M) (hp : parent.Sound s' s'' gs)
    {b : NamedBlock} (hb : b ∈ blocksAll (topMixinsAll M.1 ++ M.2.parent)) {i : Nat}
    (hi : b.head.id = some i) (m : String) :
    i ∈ parent.declared.targets m ↔
      b.head.name = m ∧ b.head.mode = .replace ∧ s' < i ∧
        ∀ g ∈ gs, g.last < i → ¬ g.Shuts m := by
  rcases hM.block hb with hb | ⟨-, xs, hxs⟩
  · have hle := (hM.marked.range hb hi).2
    constructor
    · intro ht
      have := hM.liesOver.lt_target m i ht
      omega
    · rintro ⟨-, -, hlt, -⟩
      omega
  · have hlt := (hp.range hxs hi).1
    simpa only [hlt, true_and] using hp.covers _ hxs i hi m

/-- Blocks of the result with one number are alike. -/
theorem copies (hM : Merged s child r s' parent gs M) (hp : parent.Sound s' s'' gs)
    {b c : NamedBlock} (hb : b ∈ blocksAll (topMixinsAll M.1 ++ M.2.parent))
    (hc : c ∈ blocksAll (topMixinsAll M.1 ++ M.2.parent)) (hid : b.head.id = c.head.id) :
    b.MatchesIn (⟨child, s'⟩ :: gs) c := by
  rcases hM.block hb with hb | ⟨hb, xs, hxs⟩ <;> rcases hM.block hc with hc | ⟨hc, ys, hys⟩
  · refine hM.marked.matchesIn ?_ hb hc hid
    rw [List.forall_mem_cons]
    exact ⟨Nat.le_refl _, hp.lasts⟩
  · obtain ⟨i, hi, -, hle⟩ := hM.marked.numbered b hb
    have hlt := (hp.range hys (hid.symm.trans hi)).1
    omega
  · obtain ⟨i, hi, hlt, -⟩ := hp.numbered _ hxs
    have hle := (hM.marked.range hc (hid.symm.trans hi)).2
    omega
  · obtain ⟨i, hi, hlt, -⟩ := hp.numbered _ hxs
    have hmatch := hp.copies _ hxs _ hys hid
    exact ⟨hmatch.name, hmatch.mode, hM.amended.copies b hb c hc i hlt hi (hid.symm.trans hi)⟩

end Merged

/-- Merging a declared document into a sound parent is sound. -/
theorem Linked.Sound.inherit (hp : parent.Sound s' s'' gs) (hc : Declared s child r s')
    (h : parent.inherit child r overrides = .ok l) :
    l.Sound s s'' (⟨child, s'⟩ :: gs) := by
  obtain ⟨-, rfl⟩ := Linked.inherit_eq_ok.mp h
  have hM := hp.merged hc
  have hle := hc.le
  have hle' := hp.le
  refine ⟨by omega, ?_, fun b hb ↦ ?_, fun m i ↦ hM.lt_target, fun i p ↦ hM.lt_step hc,
    fun b hb i hi m ↦ ?_, fun b hb c hb' ↦ hM.copies hp hb hb'⟩
  · rw [List.forall_mem_cons]
    exact ⟨hle, fun g hg ↦ Nat.le_trans hle (hp.lasts g hg)⟩
  · rcases hM.block hb with hb | ⟨-, xs, hxs⟩
    · obtain ⟨i, hi, hlt, hls⟩ := hM.marked.numbered b hb
      exact ⟨i, hi, hlt, by omega⟩
    · obtain ⟨i, hi, hlt, hls⟩ := hp.numbered _ hxs
      exact ⟨i, hi, by omega, hls⟩
  · rcases hM.block hb with hb | ⟨-, xs, hxs⟩
    · exact hM.covers_child hp.lasts hb hi m
    · exact hM.covers_parent hp hxs hi m

end

end Templating
