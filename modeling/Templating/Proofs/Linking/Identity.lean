import Templating.Proofs.Linking.Soundness

/-!
# Blocks with one number

Blocks of a linked document that have one number are copies of one block: numbers and marks inside
apart, they are alike, and further overrides treat the blocks inside them alike. The numbers
inside can differ, since content that had no number when it was put into two copies gets a number
in each of them.
-/

namespace Templating

open Node

/-- Every block of a linked document has a number. Two blocks with one number have the same name,
the same mode and, numbers and marks apart, the same content, in which the same blocks are targets
of their names. -/
theorem Linked.alike_of_id_eq {d : Node} {l : Linked} (hd : d.Unnumbered) (h : link d = .ok l) :
    (∀ b ∈ blocksAll l.root.nodes, b.head.id.isSome) ∧
      ∀ b ∈ blocksAll l.root.nodes, ∀ c ∈ blocksAll l.root.nodes, b.head.id = c.head.id →
        b.head.name = c.head.name ∧ b.head.mode = c.head.mode ∧
          bareAll b.nodes = bareAll c.nodes ∧
          (blocksAll b.nodes).map (fun e ↦ e.head.isAmong (l.declared.targets e.head.name)) =
            (blocksAll c.nodes).map fun e ↦ e.head.isAmong (l.declared.targets e.head.name) := by
  classical
  obtain ⟨s', hl⟩ := link_eq_ok.mp h
  obtain ⟨gs, -, hsound⟩ := Linked.sound hd hl
  constructor
  · intro b hb
    obtain ⟨i, hi, -⟩ := hsound.numbered b hb
    simp [hi]
  · intro b hb c hc hid
    have hm := hsound.copies b hb c hc hid
    refine ⟨hm.name, hm.mode, hm.matches.nodes, ?_⟩
    -- what is a target is told by the ranked heads, which copies share
    have htest : ∀ a ∈ blocksAll l.root.nodes, ∀ e ∈ blocksAll a.nodes,
        e.head.isAmong (l.declared.targets e.head.name) =
          decide ((e.head.ranked gs).IsTarget 0 gs e.head.name) := by
      intro a ha e he
      have hmem := mem_blocksAll_of_mem_nodes ha he
      obtain ⟨i, hi, -⟩ := hsound.numbered e hmem
      rw [Bool.eq_iff_iff, BlockHead.isAmong_iff]
      simp [BlockHead.IsTarget, BlockHead.ranked, hi,
        hsound.mem_targets_iff (fun _ hg ↦ hg) hmem hi]
    have hheads : (blocksAll b.nodes).map (fun e ↦ e.head.ranked gs) =
        (blocksAll c.nodes).map fun e ↦ e.head.ranked gs := by
      have := congrArg (fun ns ↦ (blocksAll ns).map (·.head)) hm.nodes
      simpa [blocksAll_mapHeadsAll, Function.comp_def] using this
    have htargets := congrArg (List.map fun k ↦ decide (k.IsTarget 0 gs k.name)) hheads
    rw [List.map_map, List.map_map] at htargets
    rw [List.map_congr_left (htest b hb), List.map_congr_left (htest c hc)]
    exact htargets

/-- A document that puts a block into the two yield points of a document with a block. -/
def copyingDocument : Node :=
  let part := .group ⟨[.block (.fresh "x" .replace ⟨none, 1⟩) [.yield ⟨none, 1⟩]], ⟨none, 1⟩⟩
  let card := .group ⟨[.yield ⟨none, 1⟩, .yield ⟨none, 1⟩], ⟨none, 1⟩⟩
  let pair := .group ⟨[.includes (.loaded "card.tmpl") (some card)
    (some ⟨[.includes (.loaded "part.tmpl") (some part) none ⟨none, 1⟩], ⟨none, 1⟩⟩)
      ⟨none, 1⟩], ⟨none, 1⟩⟩
  .group ⟨[.includes (.loaded "pair.tmpl") (some pair)
    (some ⟨[.block (.fresh "y" .replace ⟨none, 1⟩) [.text "Y" ⟨none, 1⟩]], ⟨none, 1⟩⟩)
      ⟨none, 1⟩], ⟨none, 1⟩⟩

theorem alike_copyingDocument :
    ∃ l, copyingDocument.Unnumbered ∧ link copyingDocument = .ok l ∧
      (∀ b ∈ blocksAll l.root.nodes, b.head.id.isSome) ∧
      ∀ b ∈ blocksAll l.root.nodes, ∀ c ∈ blocksAll l.root.nodes, b.head.id = c.head.id →
        b.head.name = c.head.name ∧ b.head.mode = c.head.mode ∧
          bareAll b.nodes = bareAll c.nodes ∧
          (blocksAll b.nodes).map (fun e ↦ e.head.isAmong (l.declared.targets e.head.name)) =
            (blocksAll c.nodes).map fun e ↦ e.head.isAmong (l.declared.targets e.head.name) :=
  have hd : copyingDocument.Unnumbered := by decide
  ⟨_, hd, rfl, Linked.alike_of_id_eq hd rfl⟩

/-- The blocks inside copies can have different numbers. -/
theorem exists_copies_numbered_apart :
    ∃ l, copyingDocument.Unnumbered ∧ link copyingDocument = .ok l ∧
      ∃ b ∈ blocksAll l.root.nodes, ∃ c ∈ blocksAll l.root.nodes, b.head.id = c.head.id ∧
        mapHeadsAll BlockHead.unmarked b.nodes ≠ mapHeadsAll BlockHead.unmarked c.nodes := by
  refine ⟨_, by decide, rfl, _, List.mem_cons_self, _,
    List.mem_cons_of_mem _ (List.mem_cons_of_mem _ List.mem_cons_self), rfl, ?_⟩
  intro he
  have hids := congrArg (fun ns ↦ (blocksAll ns).map fun b ↦ b.head.id) he
  exact absurd hids (by decide)

end Templating
