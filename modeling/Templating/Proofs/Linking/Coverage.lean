import Templating.Proofs.Linking.Soundness

/-!
# Blocks within reach of an override

A further inheriting document overrides the targets of a name. These are all replace-mode blocks
of that name in the linked tree but those that a document of the chain shuts off: it declares
replace-mode blocks of the name, each of them inside a block of that name, so that none of them
was merged and none leads back to the older blocks.
-/

namespace Templating

open Node

/-- A replace-mode block of a linked document is a target of its name exactly if no document that
was linked before the one it comes from shuts the name off. -/
theorem Linked.overridable_iff {d : Node} {l : Linked} (hd : d.Unnumbered) (h : link d = .ok l) :
    ∃ gs, d.ancestry 0 = .ok gs ∧
      ∀ b ∈ blocksAll l.root.nodes, b.head.mode = .replace →
        ∃ i : Nat, b.head.id = some i ∧
          (i ∈ l.declared.flatten (l.declared.get b.head.name) ↔
            ∀ g ∈ gs, g.last < i → ¬ g.Shuts b.head.name) := by
  obtain ⟨s', hl⟩ := link_eq_ok.mp h
  obtain ⟨gs, hgs, hsound⟩ := Linked.sound hd hl
  refine ⟨gs, hgs, fun b hb hmode ↦ ?_⟩
  obtain ⟨i, hi, -⟩ := hsound.numbered b hb
  refine ⟨i, hi, (hsound.covers b hb i hi b.head.name).trans ?_⟩
  simp only [hmode, true_and]

/-- A parent with a block, and a child that adds a block of the same name to its content. -/
def shuttingDocument : Node :=
  .group ⟨[
    .inherits (.loaded "base.tmpl")
      (some (.group ⟨[.block (.fresh "n" .replace ⟨none, 1⟩) [.text "base" ⟨none, 1⟩]],
        ⟨none, 1⟩⟩)) ⟨none, 1⟩,
    .block (.fresh "n" .append ⟨none, 1⟩)
      [.block (.fresh "n" .replace ⟨none, 1⟩) [.text "inner" ⟨none, 1⟩]]], ⟨none, 1⟩⟩

theorem overridable_iff_shuttingDocument :
    ∃ l, shuttingDocument.Unnumbered ∧ link shuttingDocument = .ok l ∧
      ∃ gs, shuttingDocument.ancestry 0 = .ok gs ∧
        ∀ b ∈ blocksAll l.root.nodes, b.head.mode = .replace →
          ∃ i : Nat, b.head.id = some i ∧
            (i ∈ l.declared.flatten (l.declared.get b.head.name) ↔
              ∀ g ∈ gs, g.last < i → ¬ g.Shuts b.head.name) :=
  ⟨_, by decide, rfl, Linked.overridable_iff (by decide) rfl⟩

/-- The parent's block stays in the tree, out of reach of further overrides. -/
theorem exists_block_not_overridable :
    ∃ l, link shuttingDocument = .ok l ∧
      ∃ b ∈ blocksAll l.root.nodes, b.head.mode = .replace ∧
        ∃ i, b.head.id = some i ∧ i ∉ l.declared.flatten (l.declared.get b.head.name) :=
  ⟨_, rfl, _, List.mem_cons_self, rfl, 3, rfl, by decide⟩

/-! ### Overrides of one document -/

/-- The name of an override is found in the result. The override has reached a block of the result
exactly if there is a replace-mode block of that name which an ancestor has left and no document
between shuts off. -/
theorem Linked.reached_iff {f : Reference} {d : Node} {q p : Position} {rest : List Node}
    {l : Linked} (hd : Unnumbered (.group ⟨.inherits f (some d) q :: rest, p⟩))
    (h : link (.group ⟨.inherits f (some d) q :: rest, p⟩) = .ok l) :
    ∃ g gs overrides parent s',
      ancestry (.group ⟨.inherits f (some d) q :: rest, p⟩) 0 = .ok (g :: gs) ∧
      overridesAll g.nodes = .ok overrides ∧ linkNode d g.last = .ok (parent, s') ∧
      ∀ o ∈ overrides, (∃ b ∈ blocksAll l.root.nodes, b.head.name = o.1) ∧
        ((∃ b ∈ blocksAll l.root.nodes, ∃ i : Nat, b.head.id = some i ∧
            i ∈ parent.declared.flatten (parent.declared.get o.1)) ↔
          ∃ b ∈ blocksAll l.root.nodes, b.head.name = o.1 ∧ b.head.mode = .replace ∧
            ∃ i : Nat, b.head.id = some i ∧ g.last < i ∧
              ∀ g' ∈ gs, g'.last < i → ¬ g'.Shuts o.1) := by
  obtain ⟨s', hl⟩ := link_eq_ok.mp h
  obtain ⟨hfirst, ns, s₁, hns, overrides, hover, parent, hparent, hinherit⟩ :=
    linkNode_inherits_eq_ok.mp hl
  obtain ⟨hud, hurest⟩ := unnumberedAll_cons.mp (unnumbered_group.mp hd)
  have hc := (linkCases_sound.expandAll rest hns hurest).declare
  obtain ⟨gs, hgs, hp⟩ := Linked.sound (unnumbered_inherits.mp hud) hparent
  have hM := hp.merged hc
  obtain ⟨hfound, rfl⟩ := Linked.inherit_eq_ok.mp hinherit
  refine ⟨_, gs, overrides, parent, s', ancestry_inherits hns hgs, hover, hparent,
    fun o ho ↦ ⟨?_, exists_congr fun b ↦ and_congr_right fun hb ↦ ?_⟩⟩
  · obtain ⟨b, hb, hbo⟩ := hfound o ho
    exact ⟨b, by simp [hb], hbo⟩
  · constructor
    · rintro ⟨i, hi, ht⟩
      obtain ⟨hname, hmode, hlt, hall⟩ := (hM.mem_targets_iff hp hb hi o.1).mp ht
      exact ⟨hname, hmode, i, hi, hlt, hall⟩
    · rintro ⟨hname, hmode, i, hi, hlt, hall⟩
      exact ⟨i, hi, (hM.mem_targets_iff hp hb hi o.1).mpr ⟨hname, hmode, hlt, hall⟩⟩

/-- A document whose only block is not in replace mode. -/
def appendingDocument : Node :=
  .group ⟨[.block (.fresh "n" .append ⟨none, 1⟩) [.text "base" ⟨none, 1⟩]], ⟨none, 1⟩⟩

/-- A child of `appendingDocument` that overrides the name of its block. -/
def missingDocument : Node :=
  .group ⟨[
    .inherits (.loaded "base.tmpl") (some appendingDocument) ⟨none, 1⟩,
    .block (.fresh "n" .replace ⟨none, 1⟩) [.text "T" ⟨none, 1⟩]], ⟨none, 1⟩⟩

theorem reached_iff_missingDocument :
    ∃ l, missingDocument.Unnumbered ∧ link missingDocument = .ok l ∧
      ∃ g gs overrides parent s',
        missingDocument.ancestry 0 = .ok (g :: gs) ∧
        overridesAll g.nodes = .ok overrides ∧
        linkNode appendingDocument g.last = .ok (parent, s') ∧
        ∀ o ∈ overrides, (∃ b ∈ blocksAll l.root.nodes, b.head.name = o.1) ∧
          ((∃ b ∈ blocksAll l.root.nodes, ∃ i : Nat, b.head.id = some i ∧
              i ∈ parent.declared.flatten (parent.declared.get o.1)) ↔
            ∃ b ∈ blocksAll l.root.nodes, b.head.name = o.1 ∧ b.head.mode = .replace ∧
              ∃ i : Nat, b.head.id = some i ∧ g.last < i ∧
                ∀ g' ∈ gs, g'.last < i → ¬ g'.Shuts o.1) := by
  have hd : missingDocument.Unnumbered := by decide
  exact ⟨_, hd, rfl, Linked.reached_iff hd rfl⟩

/-- The override is linked and has reached nothing. -/
theorem exists_override_not_reached :
    ∃ l overrides parent, link missingDocument = .ok l ∧
      (∃ g gs s', missingDocument.ancestry 0 = .ok (g :: gs) ∧
        overridesAll g.nodes = .ok overrides ∧
        linkNode appendingDocument g.last = .ok (parent, s')) ∧
      ∃ o ∈ overrides, ∀ b ∈ blocksAll l.root.nodes, ∀ i : Nat, b.head.id = some i →
        i ∉ parent.declared.flatten (parent.declared.get o.1) := by
  refine ⟨_, _, _, rfl, ⟨_, _, _, rfl, rfl, rfl⟩, _, List.mem_cons_self, ?_⟩
  intro b _ i _ hi
  cases hi

end Templating
