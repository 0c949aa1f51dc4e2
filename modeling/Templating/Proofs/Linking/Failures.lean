import Templating.Proofs.Linking.Steps
import Templating.Proofs.Loading.Populated

/-!
# Failures of links

A link of a document whose references are populated fails only for what the templates say
(`isInternal_of_linkNode`).
-/

namespace Templating

open Node

namespace Link

variable {α β : Type} {E : TemplateError → Prop} {x : Link α} {f : α → Link β}

/-- All errors of the link have a property. -/
def FailsOnly (E : TemplateError → Prop) (x : Link α) : Prop := ∀ s e, x s = .error e → E e

theorem failsOnly_pure (a : α) : FailsOnly E (pure a : Link α) := by
  intro s e h
  cases h

theorem failsOnly_lift {r : Except TemplateError α} (h : ∀ e, r = .error e → E e) :
    FailsOnly E (liftM r : Link α) := by
  intro s e he
  cases r with
  | ok a => cases he
  | error e' =>
    cases he
    exact h _ rfl

theorem FailsOnly.bind (hx : FailsOnly E x) (hf : ∀ a, FailsOnly E (f a)) :
    FailsOnly E (x >>= f) := by
  intro s e h
  change (x s >>= fun p ↦ f p.1 p.2) = .error e at h
  cases hs : x s with
  | error e' =>
    rw [hs] at h
    cases h
    exact hx s _ hs
  | ok p =>
    rw [hs] at h
    exact hf p.1 p.2 e h

end Link

open Link

theorem isInternal_of_checkInherits {ns : List Node} {e : TemplateError}
    (h : checkInherits ns = .error e) : e.isInternal = false := by
  unfold checkInherits at h
  split at h <;> cases h
  rfl

theorem isInternal_of_overridesAll {ns : List Node} {e : TemplateError}
    (h : overridesAll ns = .error e) : e.isInternal = false := by
  have hcons : ∀ n ns, (∀ e, overrides n = .error e → e.isInternal = false) →
      (∀ e, overridesAll ns = .error e → e.isInternal = false) →
      ∀ e, overridesAll (n :: ns) = .error e → e.isInternal = false := by
    intro n ns hn hns e he
    unfold overridesAll at he
    split at he
    · next e' hn' =>
      cases he
      exact hn _ hn'
    · split at he
      · next e' hns' =>
        cases he
        exact hns _ hns'
      · cases he
  induction ns using top_induction generalizing e with
  | nil => cases h
  | group inner p ns ihi ih =>
    exact hcons (.group ⟨inner, p⟩) ns (fun _ he ↦ ihi he) (fun _ he ↦ ih he) e h
  | other n ns hn ih =>
    refine hcons n ns (fun e he ↦ ?_) (fun _ he ↦ ih he) e h
    cases n with
    | block => cases he
    | group => cases hn
    | mixin k b =>
      rw [overrides] at he
      split at he <;> cases he
      rfl
    | _ =>
      cases he
      rfl

theorem isInternal_of_inherit {parent : Linked} {child : List Node} {declared : Registry}
    {overrides : List (String × Position)} {e : TemplateError}
    (h : parent.inherit child declared overrides = .error e) : e.isInternal = false := by
  unfold Linked.inherit at h
  dsimp only at h
  split at h <;> cases h
  rfl

theorem failsOnly_declareBlocks {E : TemplateError → Prop} (ns : List Node) :
    FailsOnly E (declareBlocks ns) := by
  intro s e h
  cases h

/-- A template beside a reference is a document whose references are populated. -/
theorem exists_document_of_unfolded {f : Reference} {d : Option Node} {p : Position}
    (h : ∀ r ∈ (Dependency.mk true f d p).unfolded, r.IsPopulated) :
    ∃ d', d = some d' ∧ d'.isGroup ∧ ∀ r ∈ d'.dependencies, r.IsPopulated := by
  simp only [Dependency.unfolded, List.forall_mem_cons] at h
  obtain ⟨b, rfl⟩ := h.1.document rfl
  exact ⟨_, rfl, rfl, by simpa using h.2⟩

/-- No step of a link asks for more than loading has put there. -/
theorem documentCases_failsOnly :
    DocumentCases
      (fun d ↦ d.isGroup → (∀ r ∈ d.dependencies, r.IsPopulated) →
        FailsOnly (fun e ↦ e.isInternal = false) (linkNode d))
      (fun ns ↦ (∀ r ∈ dependenciesAll ns, r.IsPopulated) →
        FailsOnly (fun e ↦ e.isInternal = false) (expandAll ns)) where
  base ns p hhead ih _ h := by
    rw [linkNode_group hhead]
    refine (failsOnly_lift fun _ ↦ isInternal_of_checkInherits).bind fun _ ↦ ?_
    refine (ih (by simpa using h)).bind fun ns ↦ (failsOnly_declareBlocks ns).bind fun _ ↦ ?_
    exact failsOnly_pure _
  inherit f d q ns p ihd ih _ h := by
    simp only [dependencies_group, dependenciesAll_cons, dependencies_inherits,
      List.forall_mem_append] at h
    obtain ⟨d', rfl, hgroup, hd⟩ := exists_document_of_unfolded h.1
    rw [linkNode_inherits]
    refine (failsOnly_lift fun _ ↦ isInternal_of_checkInherits).bind fun _ ↦ ?_
    refine (ih h.2).bind fun ns ↦ (failsOnly_declareBlocks ns).bind fun x ↦ ?_
    refine (failsOnly_lift fun _ ↦ isInternal_of_overridesAll).bind fun os ↦ ?_
    refine (ihd d' rfl hgroup hd).bind fun parent ↦ ?_
    exact failsOnly_lift fun _ ↦ isInternal_of_inherit
  other n hn hgroup := by simp [hn] at hgroup
  nil _ := failsOnly_pure []
  cons n ns ihn ih h := by
    rw [dependenciesAll_cons, List.forall_mem_append] at h
    rw [expandAll_cons]
    exact (ihn (by simpa using h.1)).bind fun _ ↦ (ih h.2).bind fun _ ↦ failsOnly_pure _
  framed F ns hF ih h := by
    have hdependency : (framed F []).dependency? = none := by
      cases F with
      | includes => cases hF
      | _ => rfl
    rw [dependenciesAll_singleton, dependencies_framed_of_eq_none hdependency] at h
    rw [expandAll_framed hF]
    exact (ih h).bind fun _ ↦ failsOnly_pure _
  block k ns ih h := by
    rw [expandAll_block]
    exact (ih (by simpa using h)).bind fun _ ↦ failsOnly_pure _
  leaf n hn hi _ := by
    rw [expandAll_leaf hn hi]
    exact failsOnly_pure _
  includesRaw f d us p h := by
    have htext : f.text.isSome := (h ⟨false, f, d, p⟩ (by simp [Dependency.unfolded])).text
    obtain ⟨t, ht⟩ := Option.isSome_iff_exists.mp htext
    rw [expandAll_includesRaw, ht]
    exact failsOnly_pure _
  includes f d b p ihd ih h := by
    have hbody : FailsOnly (fun e ↦ e.isInternal = false) (expandBody b) ∧
        ∀ r ∈ (Dependency.mk true f d p).unfolded, r.IsPopulated := by
      cases b with
      | none => exact ⟨failsOnly_pure none, by simpa using h⟩
      | some b =>
        obtain ⟨ns, q⟩ := b
        simp only [dependenciesAll_singleton, dependencies_includes_some,
          List.forall_mem_append] at h
        exact ⟨(ih ⟨ns, q⟩ rfl h.2).bind fun _ ↦ failsOnly_pure _, h.1⟩
    obtain ⟨d', rfl, hgroup, hd⟩ := exists_document_of_unfolded hbody.2
    rw [expandAll_includes]
    exact hbody.1.bind fun _ ↦ (ihd d' rfl hgroup hd).bind fun _ ↦ failsOnly_pure _

/-- A link of a document whose references are populated. -/
theorem isInternal_of_link {d : Node} (hgroup : d.isGroup)
    (hd : ∀ r ∈ d.dependencies, r.IsPopulated) {e : TemplateError} (h : link d = .error e) :
    e.isInternal = false := by
  refine documentCases_failsOnly.document d hgroup hd 0 e ?_
  change (Prod.fst <$> linkNode d 0 : Except _ _) = .error e at h
  cases hl : linkNode d 0 with
  | ok p =>
    rw [hl] at h
    cases h
  | error e' =>
    rw [hl] at h
    cases h
    rfl

end Templating
