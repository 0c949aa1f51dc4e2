import Templating.Proofs.Linking.Generations

/-!
# Overrides of a linked parent

The overrides of a child keep the copies in its parent alike (`Overridden.foldl_apply`). One
override tells the blocks of the parent apart only by what copies share: name, mode and generation
(`Linked.Sound.isAmong_iff`); and it finds no targets among the blocks of the child.
-/

namespace Templating

open Node

/-- The tree of a parent under overrides by the blocks of `child`, whose last number is `s`. -/
structure Overridden (child parent : List Node) (s : Nat) (gs : List Generation)
    (ns : List Node) : Prop where
  block : ∀ b ∈ blocksAll ns, b ∈ blocksAll child ∨ ∃ xs, ⟨b.head, xs⟩ ∈ blocksAll parent
  copies : ∀ b ∈ blocksAll ns, ∀ c ∈ blocksAll ns, ∀ i : Nat, s < i → b.head.id = some i →
    c.head.id = some i →
      mapHeadsAll (BlockHead.ranked gs) b.nodes = mapHeadsAll (BlockHead.ranked gs) c.nodes

/-- The block of a ranked head has a number after `s` and is a target of the name. -/
def BlockHead.IsTarget (s : Nat) (gs : List Generation) (m : String) (k : BlockHead) : Prop :=
  k.name = m ∧ k.mode = .replace ∧
    ∃ c : Nat, k.id = some c ∧ s ≤ c ∧ ∀ g ∈ gs, g.last ≤ c → ¬ g.Shuts m

section

variable {s s' s'' : Nat} {child ns : List Node} {r : Registry} {parent : Linked}
  {g : Generation} {gs : List Generation}

/-- The parent's blocks match within all generations, the child's included. -/
theorem Linked.Sound.overridden (hp : parent.Sound s' s'' gs) (hg : g.last = s') :
    Overridden child parent.root.nodes s' (g :: gs) parent.root.nodes where
  block b hb := .inr ⟨b.nodes, hb⟩
  copies := by
    intro b hb c hc i _ hbi hci
    have hrank : ∀ d ∈ blocksAll parent.root.nodes, d.head.ranked (g :: gs) =
        { d.head.ranked gs with id := (d.head.ranked gs).id.map (max s') } := by
      intro d hd
      obtain ⟨j, hj, hlt, -⟩ := hp.numbered d hd
      simp [BlockHead.ranked, hj, birth_cons_of_lt (hg.symm ▸ hlt), hg]
    have hm := (hp.copies b hb c hc (hbi.trans hci.symm)).nodes
    exact mapHeadsAll_eq_of_comp (g := fun k ↦ { k with id := k.id.map (max s') }) hm
      (fun d hd ↦ hrank d (mem_blocksAll_of_mem_nodes hb hd))
      fun d hd ↦ hrank d (mem_blocksAll_of_mem_nodes hc hd)

/-- The parent has no targets among the child's blocks. -/
theorem Linked.Sound.isAmong_child (hp : parent.Sound s' s'' gs) (hc : Declared s child r s')
    {b : NamedBlock} (hb : b ∈ blocksAll child) (m : String) :
    b.head.isAmong (parent.declared.targets m) = false := by
  rw [Bool.eq_false_iff, ne_eq, BlockHead.isAmong_iff]
  rintro ⟨i, hi, hmem⟩
  exact absurd (hp.lt_target m i hmem) (Nat.not_lt.mpr (hc.range hb hi).2)

/-- Targets are told by name, mode and generation. -/
theorem Linked.Sound.isAmong_iff (hp : parent.Sound s' s'' gs) (hc : Declared s child r s')
    (hg : g.last = s') {b : NamedBlock}
    (hb : b ∈ blocksAll child ∨ ∃ xs, ⟨b.head, xs⟩ ∈ blocksAll parent.root.nodes) (m : String) :
    b.head.isAmong (parent.declared.targets m) ↔
      (b.head.ranked (g :: gs)).IsTarget s' gs m := by
  rcases hb with hb | ⟨xs, hb⟩
  · obtain ⟨i, hi, hlt, hle⟩ := hc.numbered b hb
    have hz : birth (g :: gs) i = 0 := by
      apply birth_eq_zero
      rw [List.forall_mem_cons]
      exact ⟨hg ▸ hle, fun g' hg' ↦ Nat.le_trans hle (hp.lasts g' hg')⟩
    simp only [hp.isAmong_child hc hb, Bool.false_eq_true, false_iff]
    rintro ⟨-, -, c, hci, hsc, -⟩
    rw [BlockHead.ranked, hi, Option.map_some, hz] at hci
    have hzero : (0 : Nat) = c := Option.some.inj hci
    omega
  · obtain ⟨i, hi, hlt, -⟩ := hp.numbered _ hb
    change b.head.id = some i at hi
    have hbirth : s' ≤ birth (g :: gs) i := by
      rw [birth_cons_of_lt (hg.symm ▸ hlt)]
      omega
    have hmem : i ∈ parent.declared.targets m ↔ b.head.name = m ∧ b.head.mode = .replace ∧
        ∀ g' ∈ gs, g'.last ≤ birth (g :: gs) i → ¬ g'.Shuts m :=
      hp.mem_targets_iff (fun g' hg' ↦ List.mem_cons_of_mem g hg') hb hi m
    rw [BlockHead.isAmong_iff]
    simp only [BlockHead.IsTarget, BlockHead.ranked, hi, Option.map_some, Option.some_inj,
      exists_eq_left', hmem, hbirth, true_and]

/-- Copies are overridden alike. -/
theorem Overridden.ranked_apply_congr (hp : parent.Sound s' s'' gs)
    (hc : Declared s child r s') (hg : g.last = s')
    (ho : Overridden child parent.root.nodes s' (g :: gs) ns) (b₀ : NamedBlock)
    {b c : NamedBlock} (hb : b ∈ blocksAll ns) (hc' : c ∈ blocksAll ns)
    (h : mapHeadsAll (BlockHead.ranked (g :: gs)) b.nodes =
      mapHeadsAll (BlockHead.ranked (g :: gs)) c.nodes) :
    mapHeadsAll (BlockHead.ranked (g :: gs)) (parent.declared.apply b.nodes b₀) =
      mapHeadsAll (BlockHead.ranked (g :: gs)) (parent.declared.apply c.nodes b₀) := by
  classical
  have hamend : ∀ d ∈ blocksAll ns,
      mapHeadsAll (BlockHead.ranked (g :: gs)) (parent.declared.apply d.nodes b₀) =
        overrideAll (fun k ↦ decide (k.IsTarget s' gs b₀.head.name)) b₀.head.mode
          (mapHeadsAll (BlockHead.ranked (g :: gs)) b₀.nodes)
          (mapHeadsAll (BlockHead.ranked (g :: gs)) d.nodes) := by
    intro d hd
    apply mapHeadsAll_amendAll
    intro e he
    have hiff := hp.isAmong_iff hc hg (ho.block e (mem_blocksAll_of_mem_nodes hd he))
      b₀.head.name
    rw [Bool.eq_iff_iff, hiff, decide_eq_true_iff]
  rw [hamend b hb, hamend c hc', h]

/-- The child's blocks stay as they are. -/
theorem Linked.Sound.apply_child (hp : parent.Sound s' s'' gs) (hc : Declared s child r s')
    (b₀ : NamedBlock) {b : NamedBlock} (hb : b ∈ blocksAll child) :
    parent.declared.apply b.nodes b₀ = b.nodes :=
  amendAll_eq_self fun _ hd ↦ hp.isAmong_child hc (mem_blocksAll_of_mem_nodes hb hd) _

/-- One override. -/
theorem Overridden.apply (hp : parent.Sound s' s'' gs) (hc : Declared s child r s')
    (hg : g.last = s') (ho : Overridden child parent.root.nodes s' (g :: gs) ns)
    {b₀ : NamedBlock} (h₀ : ∀ b ∈ blocksAll b₀.nodes, b ∈ blocksAll child) :
    Overridden child parent.root.nodes s' (g :: gs) (parent.declared.apply ns b₀) where
  block := by
    intro b hb
    rcases mem_blocksAll_amendAll hb with ⟨xs, hxs, hn⟩ | hb
    · rcases ho.block _ hxs with hchild | hparent
      · left
        have hself := hp.apply_child hc b₀ hchild
        have hhead := hp.isAmong_child hc hchild b₀.head.name
        unfold Registry.apply at hself
        simp only [hhead, Bool.false_eq_true, if_false, hself] at hn
        have he : b = ⟨b.head, xs⟩ := by rw [← hn]
        exact he ▸ hchild
      · exact .inr hparent
    · exact .inl (h₀ b hb)
  copies := by
    intro b hb c hc' i hi hbi hci
    have hold : ∀ d ∈ blocksAll b₀.nodes, d.head.id ≠ some i := by
      intro d hd hdi
      have hle := (hc.range (h₀ d hd) hdi).2
      omega
    rcases mem_blocksAll_amendAll hb with ⟨xs, hxs, hbx⟩ | hb
    · rcases mem_blocksAll_amendAll hc' with ⟨ys, hys, hcy⟩ | hc'
      · have hview := ho.ranked_apply_congr hp hc hg b₀ hxs hys
          (ho.copies _ hxs _ hys i hi hbi hci)
        have hamong : b.head.isAmong (parent.declared.targets b₀.head.name) =
            c.head.isAmong (parent.declared.targets b₀.head.name) := by
          unfold BlockHead.isAmong
          rw [hbi, hci]
        unfold Registry.apply at hview
        rw [hbx, hcy, hamong]
        split
        · rw [mapHeadsAll_combine, mapHeadsAll_combine, hview]
        · exact hview
      · exact absurd hci (hold c hc')
    · exact absurd hbi (hold b hb)

/-- All overrides of a child, one after another. -/
theorem Overridden.foldl_apply (hp : parent.Sound s' s'' gs) (hc : Declared s child r s')
    (hg : g.last = s') {bs : List NamedBlock} (hbs : ∀ b ∈ bs, b ∈ blocksAll child)
    (ho : Overridden child parent.root.nodes s' (g :: gs) ns) :
    Overridden child parent.root.nodes s' (g :: gs) (bs.foldl parent.declared.apply ns) := by
  induction bs generalizing ns with
  | nil => exact ho
  | cons b bs ih =>
    rw [List.forall_mem_cons] at hbs
    exact ih hbs.2 (ho.apply hp hc hg fun c hcb ↦ mem_blocksAll_of_mem_nodes hbs.1 hcb)

end

end Templating
