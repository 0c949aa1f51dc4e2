import Templating.Node.Outline
import Templating.Proofs.Linking.Placement

/-!
# The text of an include site in the included document

Content at the default place shows in the text of the included document if the way to that place
enters no mixin definition. A document that ends in a mixin definition hides it: the definition can
be entered like other nodes that carry a sequence, and shows nothing where it stands.
-/

namespace Templating

open Node

namespace Node

theorem shownTextAll_append (ns ms : List Node) :
    shownTextAll (ns ++ ms) = shownTextAll ns ++ shownTextAll ms := by
  induction ns with
  | nil => simp [shownTextAll]
  | cons n ns ih => simp [shownTextAll, ih, String.append_assoc]

/-- A frame shows the text of its sequence, unless it is that of a mixin definition. -/
theorem shownText_framed (F : Frame) (ns : List Node) :
    shownText (framed F ns) = if F.isDefinition then "" else shownTextAll ns := by
  cases F with
  | mixin h p => cases hh : h.isCall <;> simp [framed, shownText, Frame.isDefinition, hh]
  | _ => rfl

theorem shownTextAll_around (x : Layer) (ns : List Node) :
    shownTextAll (x.around ns) =
      shownTextAll x.before ++ (if x.frame.isDefinition then "" else shownTextAll ns) ++
        shownTextAll x.after := by
  rw [Layer.around, shownTextAll_append, shownTextAll, shownText_framed, String.append_assoc]

/-- Layers outside mixin definitions show the sequence within them at one place. -/
theorem exists_shownTextAll_plug {xs : List Layer} (h : ∀ x ∈ xs, x.frame.isDefinition = false) :
    ∃ u v, ∀ ns, shownTextAll (plug xs ns) = u ++ shownTextAll ns ++ v := by
  induction xs with
  | nil => exact ⟨"", "", fun ns ↦ by simp⟩
  | cons x xs ih =>
    rw [List.forall_mem_cons] at h
    obtain ⟨u, v, huv⟩ := ih h.2
    refine ⟨shownTextAll x.before ++ u, v ++ shownTextAll x.after, fun ns ↦ ?_⟩
    rw [plug_cons, shownTextAll_around, h.1, huv]
    simp [String.append_assoc]

/-- A mixin definition shows nothing of the sequence within it. -/
theorem shownTextAll_plug_of_isDefinition {xs : List Layer} (h : ∃ x ∈ xs, x.frame.isDefinition)
    (ns ms : List Node) : shownTextAll (plug xs ns) = shownTextAll (plug xs ms) := by
  induction xs with
  | nil => simp at h
  | cons x xs ih =>
    rw [plug_cons, plug_cons, shownTextAll_around, shownTextAll_around]
    by_cases hx : x.frame.isDefinition
    · rw [if_pos hx, if_pos hx]
    · rw [ih (by simpa [hx] using h)]

end Node

/-- A document without yield points takes content in at the default place, if it takes in any. -/
theorem takeIn_eq_or {root : Block} (h : yieldPoints root.nodes = []) (c : Block) :
    c.nodes = [] ∧ root.takeIn (some c) = root ∨
      root.takeIn (some c) = { root with nodes := placeDefault c root.nodes } := by
  have hyield : ¬hasYieldAll root.nodes := fun hy ↦ hasYieldAll_iff.mp hy h
  by_cases hc : c.nodes = []
  · exact .inl ⟨hc, by simp [Block.takeIn, hc]⟩
  · exact .inr (by rw [root.takeIn_some hc, if_neg hyield])

/-- Content at the default place, if the way there enters no mixin definition: its text is
inserted into the text of the included document, at a point that does not depend on the content.
In a mixin definition it does not show. -/
theorem shownTextAll_takeIn {root : Block} (h : yieldPoints root.nodes = []) :
    (∃ xs last, LeadsTo root.nodes xs last) ∧
      ∀ xs last, LeadsTo root.nodes xs last →
        ((∀ x ∈ xs, x.frame.isDefinition = false) →
          ∃ u v, shownTextAll root.nodes = u ++ v ∧
            ∀ c, shownTextAll (root.takeIn (some c)).nodes = u ++ shownTextAll c.nodes ++ v) ∧
        ((∃ x ∈ xs, x.frame.isDefinition) →
          ∀ c, shownTextAll (root.takeIn (some c)).nodes = shownTextAll root.nodes) := by
  refine ⟨exists_leadsTo root.nodes, fun xs last hway ↦ ⟨fun hxs ↦ ?shown, fun hxs c ↦ ?hidden⟩⟩
  case shown =>
    obtain ⟨u, v, huv⟩ := exists_shownTextAll_plug hxs
    refine ⟨u ++ shownTextAll last, v, by rw [← huv, hway.plug_eq], fun c ↦ ?_⟩
    rcases takeIn_eq_or h c with ⟨hc, htake⟩ | htake
    · rw [htake, hc, ← hway.plug_eq, huv]
      simp [shownTextAll]
    · rw [htake, hway.placeDefault_eq, huv, shownTextAll_append]
      simp [shownTextAll, shownText, String.append_assoc]
  case hidden =>
    rcases takeIn_eq_or h c with ⟨-, htake⟩ | htake
    · rw [htake]
    · rw [htake, hway.placeDefault_eq, shownTextAll_plug_of_isDefinition hxs _ last, hway.plug_eq]

/-- A document whose last node with a sequence is a mixin. -/
def endingInMixin (isCall : Bool) : Block :=
  ⟨[.text "a" ⟨none, 1⟩, .mixin ⟨"m", none, isCall, ⟨none, 2⟩⟩
    (some ⟨[.text "x" ⟨none, 2⟩], ⟨none, 2⟩⟩), .text "b" ⟨none, 3⟩], ⟨none, 1⟩⟩

/-- The way to the default place of the document is into the mixin. -/
theorem leadsTo_endingInMixin (isCall : Bool) :
    LeadsTo (endingInMixin isCall).nodes
      [⟨[.text "a" ⟨none, 1⟩], .mixin ⟨"m", none, isCall, ⟨none, 2⟩⟩ ⟨none, 2⟩,
        [.text "b" ⟨none, 3⟩]⟩] [.text "x" ⟨none, 2⟩] := by
  refine LeadsTo.enter [.text "a" ⟨none, 1⟩] (F := .mixin _ _) rfl ?after (.stop ?inner)
  case after => simp [canEnter, isTextOnly, isGroup, nestedBlock]
  case inner => simp [canEnter, isTextOnly, isGroup, nestedBlock]

theorem shownTextAll_takeIn_endingInMixin :
    (∃ u v, shownTextAll (endingInMixin true).nodes = u ++ v ∧
      ∀ c, shownTextAll ((endingInMixin true).takeIn (some c)).nodes =
        u ++ shownTextAll c.nodes ++ v) ∧
      shownTextAll ((endingInMixin true).takeIn (some siteContent)).nodes = "axcb" ∧
      (∀ c, shownTextAll ((endingInMixin false).takeIn (some c)).nodes = "ab") := by
  have hpoints : ∀ isCall, yieldPoints (endingInMixin isCall).nodes = [] := fun _ ↦ rfl
  have hcall := (shownTextAll_takeIn (hpoints true)).2 _ _ (leadsTo_endingInMixin true)
  have hdefinition := (shownTextAll_takeIn (hpoints false)).2 _ _ (leadsTo_endingInMixin false)
  exact ⟨hcall.1 (by simp [Frame.isDefinition]), rfl,
    hdefinition.2 ⟨_, List.mem_cons_self, rfl⟩⟩

/-- In a document that ends in a mixin definition the text of the include site is lost. -/
theorem exists_content_not_shown :
    ¬∀ root c : Block, yieldPoints root.nodes = [] → c.nodes ≠ [] →
      ∃ u v, shownTextAll root.nodes = u ++ v ∧
        shownTextAll (root.takeIn (some c)).nodes = u ++ shownTextAll c.nodes ++ v := by
  intro h
  obtain ⟨u, v, hroot, htake⟩ := h (endingInMixin false) siteContent rfl (by simp [siteContent])
  have hsame : shownTextAll ((endingInMixin false).takeIn (some siteContent)).nodes =
      shownTextAll (endingInMixin false).nodes := rfl
  have hlength := congrArg String.length (htake.symm.trans (hsame.trans hroot))
  have hcontent : (shownTextAll siteContent.nodes).length = 1 := rfl
  simp only [String.length_append, hcontent] at hlength
  omega

end Templating
