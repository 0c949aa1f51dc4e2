import Templating.Proofs.Linking.Induction
import Templating.Proofs.Linking.Inheriting

/-!
# Soundness of links

Every successful link of a loaded document without numbers gives a sound document, whatever it
includes and inherits from (`Linked.sound`).
-/

namespace Templating

open Node

/-- A sound document as it stands at an include site. -/
theorem Linked.Sound.embedded {s s' : Nat} {l : Linked} {gs : List Generation}
    (h : l.Sound s s' gs) : Expanded s l.embedded.nodes s' := by
  unfold Linked.embedded
  split
  · exact .of_no_blocks (blocksAll_dissolveAll _) h.le
  · exact ⟨h.le, fun b hb i hi ↦ h.range hb hi,
      fun b hb c hc i hbi hci ↦ (h.copies b hb c hc (hbi.trans hci.symm)).matches⟩

/-- Expansion keeps the numbers of a document in order, and links give sound documents. -/
theorem linkCases_sound :
    LinkCases (fun d s l s' gs ↦ d.Unnumbered → l.Sound s s' gs)
      (fun ns s ns' s' ↦ UnnumberedAll ns → Expanded s ns' s') where
  base ns p s ns' s' _ _ ih hu := (ih (unnumbered_group.mp hu)).declare.sound p
  inherit f d q ns p s ns' s' overrides parent s'' gs l _ ih _ ihp hl hu := by
    obtain ⟨hd, hns⟩ := unnumberedAll_cons.mp (unnumbered_group.mp hu)
    exact (ihp (unnumbered_inherits.mp hd)).inherit (ih hns).declare hl
  nil s _ := .of_no_blocks rfl (Nat.le_refl s)
  cons n ns s n' s' ns' s'' ihn ih hu := by
    obtain ⟨hn, hns⟩ := unnumberedAll_cons.mp hu
    exact (ihn (unnumberedAll_singleton.mpr hn)).append (ih hns)
  framed F ns s ns' s' _ ih hu := (ih hu.of_framed).framed F
  block h ns s ns' s' ih hu := by
    obtain ⟨hid, hns⟩ := unnumbered_block.mp (unnumberedAll_cons.mp hu).1
    exact (ih hns).block hid
  leaf n s hn _ _ := .of_no_blocks (by simp [blocks_leaf hn]) (Nat.le_refl s)
  includesRaw f d us p s t _ _ := .of_no_blocks rfl (Nat.le_refl s)
  includes f d p s l s' gs ih hu :=
    (ih (unnumbered_includes.mp (unnumberedAll_cons.mp hu).1)).embedded.framed
      (.group l.embedded.position)
  includesWith f d ns q p s ns' s' l s'' gs ih ihd hu := by
    obtain ⟨hd, hns⟩ := unnumbered_includesWith.mp (unnumberedAll_cons.mp hu).1
    have hcontent := ih hns
    have hsite : Expanded s (l.embedded.takeIn (some ⟨ns', q⟩)).nodes s'' :=
      .takeIn (by simpa using hcontent) hcontent.le (ihd hd).embedded
    exact hsite.framed (.group _)

/-- A link of a document without numbers gives a sound document. -/
theorem Linked.sound {d : Node} {l : Linked} {s s' : Nat} (hd : d.Unnumbered)
    (h : linkNode d s = .ok (l, s')) : ∃ gs, d.ancestry s = .ok gs ∧ l.Sound s s' gs := by
  obtain ⟨gs, hgs, hl⟩ := linkCases_sound.linkNode d h
  exact ⟨gs, hgs, hl hd⟩

end Templating
