import Templating.Proofs.Linking.Merging
import Templating.Proofs.Linking.Numbering

/-!
# Generations of blocks

The blocks of a linked document come from the documents of its chain, each of which drew its
numbers after those of the documents that inherit from it. Which blocks an override of a name
reaches is decided by name, mode and generation: the replace-mode blocks of that name, up to the
first document that shuts the name off (`Linked.Sound.covers`). Copies of a block agree up to
numbers of one generation, so overrides keep them alike (`Linked.Sound.copies`).
-/

namespace Templating

open Node

/-- The document declares replace-mode blocks of the name, but each of them only inside another
block of that name. It hides the blocks of its ancestors and records no way back to them. -/
def Generation.Shuts (g : Generation) (name : String) : Prop :=
  (∃ b ∈ blocksAll g.nodes, b.head.name = name ∧ b.head.mode = .replace) ∧
    ∀ b ∈ outermostAll [] g.nodes, b.head.name = name → b.head.mode ≠ .replace

/-- The last number of the generation before that of a block, or 0. -/
def birth (gs : List Generation) (i : Nat) : Nat :=
  ((gs.map (·.last)).filter (· < i)).foldr max 0

theorem birth_eq_zero {gs : List Generation} {i : Nat} (h : ∀ g ∈ gs, i ≤ g.last) :
    birth gs i = 0 := by
  have : (gs.map (·.last)).filter (· < i) = [] := by
    simpa [List.filter_eq_nil_iff] using h
  simp [birth, this]

theorem birth_cons_of_lt {g : Generation} {gs : List Generation} {i : Nat} (h : g.last < i) :
    birth (g :: gs) i = max g.last (birth gs i) := by
  simp [birth, h]

theorem birth_lt (gs : List Generation) {i : Nat} (hi : 0 < i) : birth gs i < i := by
  induction gs with
  | nil => exact hi
  | cons g gs ih =>
    by_cases hg : g.last < i
    · rw [birth_cons_of_lt hg]
      omega
    · simpa [birth, hg] using ih

theorem le_birth {gs : List Generation} {g : Generation} (hg : g ∈ gs) {i : Nat}
    (hi : g.last < i) : g.last ≤ birth gs i := by
  induction gs with
  | nil => cases hg
  | cons g' gs ih =>
    have htail : birth gs i ≤ birth (g' :: gs) i := by
      by_cases hg' : g'.last < i
      · rw [birth_cons_of_lt hg']
        omega
      · simp [birth, hg']
    rcases List.mem_cons.mp hg with rfl | hg
    · rw [birth_cons_of_lt hi]
      omega
    · exact Nat.le_trans (ih hg) htail

theorem lt_iff_le_birth {gs : List Generation} {g : Generation} (hg : g ∈ gs) {i : Nat}
    (hi : 0 < i) : g.last < i ↔ g.last ≤ birth gs i :=
  ⟨le_birth hg, fun h ↦ Nat.lt_of_le_of_lt h (birth_lt gs hi)⟩

/-- The head with the generation of its block for a number, and without marks. -/
def BlockHead.ranked (gs : List Generation) (h : BlockHead) : BlockHead :=
  { h with id := h.id.map (birth gs), parents := none, ignored := false }

/-- Two blocks are copies of one, numbers within one generation and marks inside apart. -/
structure NamedBlock.MatchesIn (gs : List Generation) (b c : NamedBlock) : Prop where
  name : b.head.name = c.head.name
  mode : b.head.mode = c.head.mode
  nodes : mapHeadsAll (BlockHead.ranked gs) b.nodes = mapHeadsAll (BlockHead.ranked gs) c.nodes

theorem NamedBlock.MatchesIn.matches {gs : List Generation} {b c : NamedBlock}
    (h : b.MatchesIn gs c) : b.Matches c :=
  ⟨h.name, h.mode, mapHeadsAll_eq_of_comp (g := BlockHead.bare) h.nodes (fun _ _ ↦ rfl)
    fun _ _ ↦ rfl⟩

/-- What is known of a linked document that drew the numbers after `s` up to `s'`, along the
inheriting documents `gs`. -/
structure Linked.Sound (s : Nat) (l : Linked) (s' : Nat) (gs : List Generation) : Prop where
  le : s ≤ s'
  lasts : ∀ g ∈ gs, s ≤ g.last
  numbered : ∀ b ∈ blocksAll l.root.nodes, ∃ i : Nat, b.head.id = some i ∧ s < i ∧ i ≤ s'
  lt_target : ∀ m, ∀ i : Nat, i ∈ l.declared.targets m → s < i
  lt_step : ∀ i p : Nat, l.declared.Step i p → s < i ∧ s < p
  covers : ∀ b ∈ blocksAll l.root.nodes, ∀ i : Nat, b.head.id = some i → ∀ m,
    (i ∈ l.declared.targets m ↔ b.head.name = m ∧ b.head.mode = .replace ∧
      ∀ g ∈ gs, g.last < i → ¬ g.Shuts m)
  copies : ∀ b ∈ blocksAll l.root.nodes, ∀ c ∈ blocksAll l.root.nodes,
    b.head.id = c.head.id → b.MatchesIn gs c

/-- The numbers of blocks were drawn for the document. -/
theorem Linked.Sound.range {s s' : Nat} {l : Linked} {gs : List Generation}
    (h : l.Sound s s' gs) {b : NamedBlock} (hb : b ∈ blocksAll l.root.nodes) {i : Nat}
    (hi : b.head.id = some i) : s < i ∧ i ≤ s' := by
  obtain ⟨j, hj, hr⟩ := h.numbered b hb
  rw [hi, Option.some_inj] at hj
  exact hj ▸ hr

/-- Targets are told by name, mode and generation. -/
theorem Linked.Sound.mem_targets_iff {s s' : Nat} {l : Linked} {gs gs' : List Generation}
    (h : l.Sound s s' gs) (hsub : ∀ g ∈ gs, g ∈ gs') {b : NamedBlock}
    (hb : b ∈ blocksAll l.root.nodes) {i : Nat} (hi : b.head.id = some i) (m : String) :
    i ∈ l.declared.targets m ↔ b.head.name = m ∧ b.head.mode = .replace ∧
      ∀ g ∈ gs, g.last ≤ birth gs' i → ¬ g.Shuts m := by
  have hlt := (h.range hb hi).1
  have hshuts : (∀ g ∈ gs, g.last < i → ¬ g.Shuts m) ↔
      ∀ g ∈ gs, g.last ≤ birth gs' i → ¬ g.Shuts m :=
    forall₂_congr fun g hg ↦ imp_congr_left (lt_iff_le_birth (hsub g hg) (by omega))
  rw [h.covers b hb i hi m, hshuts]

/-- Blocks of a declared document match within any later generations. -/
theorem Declared.matchesIn {s s' : Nat} {ns : List Node} {r : Registry} {gs : List Generation}
    (h : Declared s ns r s') (hgs : ∀ g ∈ gs, s' ≤ g.last) {b c : NamedBlock}
    (hb : b ∈ blocksAll ns) (hc : c ∈ blocksAll ns) (hid : b.head.id = c.head.id) :
    b.MatchesIn gs c := by
  have hrank : ∀ d ∈ blocksAll ns, d.head.ranked gs = { d.head.bare with id := some 0 } := by
    intro d hd
    obtain ⟨i, hi, hlt, hle⟩ := h.numbered d hd
    have hz : birth gs i = 0 := birth_eq_zero fun g hg ↦ Nat.le_trans hle (hgs g hg)
    simp [BlockHead.ranked, BlockHead.bare, hi, hz]
  have hm := h.copies b hb c hc hid
  exact ⟨hm.name, hm.mode, mapHeadsAll_eq_of_comp (g := fun k ↦ { k with id := some 0 }) hm.nodes
    (fun d hd ↦ hrank d (mem_blocksAll_of_mem_nodes hb hd))
    fun d hd ↦ hrank d (mem_blocksAll_of_mem_nodes hc hd)⟩

/-- A document without a parent. -/
theorem Declared.sound {s s' : Nat} {ns : List Node} {r : Registry} (h : Declared s ns r s')
    (p : Position) : Linked.Sound s ⟨⟨ns, p⟩, r, false⟩ s' [] where
  le := h.le
  lasts := by simp
  numbered := h.numbered
  lt_target := by
    intro m i hi
    rw [Registry.mem_targets_of_parents_empty h.registers.parents] at hi
    exact (h.lt_of_mem_get hi).1
  lt_step := by
    rintro i p ⟨ts, hts, -⟩
    simp [Registry.parentsOf?, h.registers.parents] at hts
  covers := by
    intro b hb i hi m
    simp [Registry.mem_targets_of_parents_empty h.registers.parents, h.mem_get_iff hb hi]
  copies := fun b hb c hc hid ↦ h.matchesIn (by simp) hb hc hid

/-! ### Documents with a parent -/

/-- Marks aside, heads tell number, name and mode. -/
theorem BlockHead.eq_of_unmarked_eq {h k : BlockHead} (e : h.unmarked = k.unmarked) :
    h.id = k.id ∧ h.name = k.name ∧ h.mode = k.mode := by
  injection e with hname hmode _ hid
  exact ⟨hid, hname, hmode⟩

/-- Marks do not matter to a declared document. -/
theorem Declared.marked {s s' : Nat} {ns ns' : List Node} {r : Registry}
    (h : Declared s ns r s')
    (hm : mapHeadsAll BlockHead.unmarked ns' = mapHeadsAll BlockHead.unmarked ns) :
    Declared s ns' r s' := by
  have hback : ∀ b ∈ blocksAll ns', ∃ c ∈ blocksAll ns, b.head.id = c.head.id ∧ b.Matches c := by
    intro b hb
    obtain ⟨c, hc, hh, hn⟩ := exists_block_of_mapHeadsAll_eq hm hb
    obtain ⟨hid, hname, hmode⟩ := BlockHead.eq_of_unmarked_eq hh
    exact ⟨c, hc, hid, hname, hmode,
      mapHeadsAll_eq_of_comp (g := BlockHead.bare) hn (fun _ _ ↦ rfl) fun _ _ ↦ rfl⟩
  refine ⟨h.le, fun b hb ↦ ?_, fun b hb c hc hid ↦ ?_, ?_, h.registers.parents,
    h.registers.namesHaveBlocks⟩
  · obtain ⟨c, hc, hid, -⟩ := hback b hb
    exact hid ▸ h.numbered c hc
  · obtain ⟨b', hb', hbid, hbm⟩ := hback b hb
    obtain ⟨c', hc', hcid, hcm⟩ := hback c hc
    have hm := h.copies b' hb' c' hc' (hbid ▸ hcid ▸ hid)
    exact ⟨hbm.name.trans (hm.name.trans hcm.name.symm),
      hbm.mode.trans (hm.mode.trans hcm.mode.symm),
      hbm.nodes.trans (hm.nodes.trans hcm.nodes.symm)⟩
  · intro m i
    rw [h.registers.mem_get]
    constructor
    · rintro ⟨b, hb, hname, hmode, hi⟩
      obtain ⟨c, hc, hh, -⟩ := exists_block_of_mapHeadsAll_eq hm.symm hb
      obtain ⟨hid, hcname, hcmode⟩ := BlockHead.eq_of_unmarked_eq hh
      exact ⟨c, hc, hcname ▸ hname, hcmode ▸ hmode, hid ▸ hi⟩
    · rintro ⟨b, hb, hname, hmode, hi⟩
      obtain ⟨c, hc, hid, hcm⟩ := hback b hb
      exact ⟨c, hc, hcm.name ▸ hname, hcm.mode ▸ hmode, hid ▸ hi⟩

end Templating
