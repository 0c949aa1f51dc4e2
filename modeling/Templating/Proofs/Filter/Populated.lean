import Templating.Proofs.Filter.Rendering
import Templating.Proofs.Loading.Populated

/-!
# References under rendering

Rendering the filters of a document drops references or keeps them as they are, with their
documents rendered (`Node.renderAll_of_rendered`). It asks for the content of a file only at raw
includes with filters, so it fails for no other reason than a filter when the references are
populated (`FilterSet.isInternal_of_render`).
-/

namespace Templating

namespace Logged

variable {ω α β : Type}

/-- An error has the property `E`, if there is one. -/
def FailsOnly (E : TemplateError → Prop) (x : Logged ω α) : Prop := ∀ e, x.result = .error e → E e

variable {E : TemplateError → Prop} {x : Logged ω α} {f : α → Logged ω β}

theorem failsOnly_pure (a : α) : (pure a : Logged ω α).FailsOnly E := by
  intro e h
  cases h

theorem FailsOnly.bind (hx : x.FailsOnly E) (hf : ∀ a, (f a).FailsOnly E) :
    (x >>= f).FailsOnly E := by
  intro e h
  rcases bind_result_eq_error.mp h with h | ⟨a, -, h⟩
  · exact hx e h
  · exact hf a e h

theorem FailsOnly.of_bind (h : (x >>= f).FailsOnly E) : x.FailsOnly E :=
  fun e he ↦ h e (bind_result_eq_error.mpr (.inl he))

end Logged

open Node Dependency

/-- The dependency `r'` is `r` with its document rendered. -/
structure Dependency.RendersTo (r r' : Dependency) : Prop where
  asTemplate : r'.asTemplate = r.asTemplate
  file : r'.file = r.file
  site : r'.site = r.site
  document : ∀ b, r.document = some (.group b) → ∃ b', r'.document = some (.group b')

theorem Dependency.RendersTo.isPopulated {r r' : Dependency} (h : r.RendersTo r')
    (hr : r.IsPopulated) : r'.IsPopulated where
  raw := h.file ▸ hr.raw
  text := h.file ▸ hr.text
  document ht := by
    obtain ⟨b, hb⟩ := hr.document (h.asTemplate ▸ ht)
    exact h.document b hb

/-- Rendering keeps groups and brings no new references. -/
structure Node.RenderAll (ns ns' : List Node) : Prop where
  groups : List.Forall₂ (fun n n' ↦ n.isGroup → n'.isGroup) ns ns'
  dependencies : ∀ r' ∈ dependenciesAll ns', ∃ r ∈ dependenciesAll ns, r.RendersTo r'

namespace Node

namespace RenderAll

variable {ns ns' ms ms' : List Node} {n n' : Node}

theorem nil : RenderAll [] [] := ⟨.nil, by simp⟩

theorem append (hn : RenderAll ns ns') (hm : RenderAll ms ms') :
    RenderAll (ns ++ ms) (ns' ++ ms') where
  groups := List.rel_append hn.groups hm.groups
  dependencies := by
    simp only [dependenciesAll_append, List.forall_mem_append]
    refine ⟨fun r' hr ↦ ?_, fun r' hr ↦ ?_⟩
    · obtain ⟨r, hr, h⟩ := hn.dependencies r' hr
      exact ⟨r, List.mem_append_left _ hr, h⟩
    · obtain ⟨r, hr, h⟩ := hm.dependencies r' hr
      exact ⟨r, List.mem_append_right _ hr, h⟩

theorem singleton (hg : n.isGroup → n'.isGroup)
    (h : ∀ r' ∈ n'.dependencies, ∃ r ∈ n.dependencies, r.RendersTo r') : RenderAll [n] [n'] :=
  ⟨.cons hg .nil, by simpa using h⟩

/-- A node without references. -/
theorem of_no_dependencies (hg : n.isGroup = false) (h : n'.dependencies = []) :
    RenderAll [n] [n'] :=
  .singleton (by simp [hg]) (by simp [h])

/-- A reference with its document. -/
theorem unfolded {asTemplate : Bool} {f : Reference} {d d' : Option Node} {p : Position}
    (h : RenderAll d.toList d'.toList) :
    ∀ r' ∈ (Dependency.mk asTemplate f d' p).unfolded,
      ∃ r ∈ (Dependency.mk asTemplate f d p).unfolded, r.RendersTo r' := by
  simp only [Dependency.unfolded, List.forall_mem_cons]
  refine ⟨⟨_, List.mem_cons_self, rfl, rfl, rfl, fun b hb ↦ ?_⟩, fun r' hr ↦ ?_⟩
  · obtain rfl : d = some (.group b) := hb
    cases d' with
    | none => cases h.groups
    | some d' =>
      obtain ⟨b', rfl⟩ := exists_group_of_isGroup ((List.forall₂_cons.mp h.groups).1 rfl)
      exact ⟨b', rfl⟩
  · obtain ⟨r, hr, hrr⟩ := h.dependencies r' hr
    exact ⟨r, List.mem_cons_of_mem _ hr, hrr⟩

/-- A leaf with its document. -/
theorem leaf {d : Option Node} (hn : isLeaf n) (h : RenderAll n.document?.toList d.toList) :
    RenderAll [n] [n.setDocument d] := by
  cases n, hn using leaf_cases with
  | inherits f d₀ p => exact .singleton id (by simpa [setDocument] using unfolded (d := d₀) h)
  | includes f d₀ p => exact .singleton id (by simpa [setDocument] using unfolded (d := d₀) h)
  | includesRaw f d₀ us p => exact .singleton id (by simpa [setDocument] using unfolded (d := d₀) h)
  | mixin k => exact .of_no_dependencies rfl rfl
  | yield p => exact .of_no_dependencies rfl rfl
  | text v p => exact .of_no_dependencies rfl rfl

/-- A frame with its document. -/
theorem frame {F : Frame} {d : Option Node}
    (hd : RenderAll (Node.framed F ns).document?.toList d.toList) (h : RenderAll ns ns') :
    RenderAll [Node.framed F ns] [(Node.framed F ns').setDocument d] := by
  cases F with
  | includes f d₀ p q =>
    refine .singleton id ?_
    simp only [Node.framed, setDocument, dependencies_includes_some, List.mem_append, or_and_right,
      exists_or]
    exact fun r' hr ↦ hr.imp (unfolded (d := d₀) hd r') (h.dependencies r')
  | group p => exact .singleton id (by simpa [Node.framed, setDocument] using h.dependencies)
  | mixin k p => exact .singleton id (by simpa [Node.framed, setDocument] using h.dependencies)
  | filter u p => exact .singleton id (by simpa [Node.framed, setDocument] using h.dependencies)
  | tag k p => exact .singleton id (by simpa [Node.framed, setDocument] using h.dependencies)

theorem block {k : BlockHead} (h : RenderAll ns ns') : RenderAll [.block k ns] [.block k ns'] :=
  .singleton id (by simpa using h.dependencies)

end RenderAll

/-- Rendering drops references or keeps them. -/
theorem renderAll_of_rendered {s : FilterSet} {ns ns' : List Node} (h : s.Rendered ns ns') :
    RenderAll ns ns' := by
  induction h with
  | nil => exact .nil
  | cons _ _ ihn ih => exact ihn.append ih
  | @text n t hf =>
    refine .of_no_dependencies ?_ rfl
    cases n with
    | group => cases hf
    | _ => rfl
  | leaf hn _ _ ihd => exact .leaf hn ihd
  | frame _ _ _ ihd ih => exact .frame ihd ih
  | block _ ih => exact .block ih

end Node

theorem exists_of_mapError_eq_error {ε ε' α : Type} {f : ε → ε'} {x : Except ε α} {e : ε'}
    (h : x.mapError f = .error e) : ∃ e', f e' = e := by
  cases x with
  | ok a => cases h
  | error e' =>
    cases h
    exact ⟨e', rfl⟩

namespace FilterSet

open Logged

variable {s : FilterSet}

/-! ### Errors of filters -/

theorem isInternal_of_lookup {name : String} {site : Position} {e : TemplateError}
    (h : s.lookup name site = .error e) : e.isInternal = false := by
  have hname : ∀ e, s.resolveName name site = .error e → e.isInternal = false := by
    intro e he
    unfold resolveName at he
    split at he
    · cases he
    · split at he <;> cases he
      rfl
  unfold lookup at h
  split at h
  · next e' he =>
    cases h
    exact hname e he
  · split at h <;> cases h
    rfl

theorem isInternal_of_foldAttrs {site : Position} {folded : Options} {attrs : List Attr}
    {e : TemplateError} (h : s.foldAttrs site folded attrs = .error e) : e.isInternal = false := by
  induction attrs generalizing folded with
  | nil => cases h
  | cons a rest ih =>
    unfold foldAttrs at h
    split at h
    · exact ih h
    · split at h
      · exact ih h
      · cases h
        rfl

theorem failsOnly_applyWith (use : FilterUse) (file : Option Path) (text : String)
    (raw : Option (List UInt8)) :
    (s.applyWith use file text raw).FailsOnly fun e ↦ e.isInternal = false := by
  intro e he
  unfold applyWith options at he
  cases hattrs : s.foldAttrs use.position .empty use.attrs with
  | error e' =>
    rw [hattrs] at he
    cases he
    exact isInternal_of_foldAttrs hattrs
  | ok folded =>
    have hoptions : ∃ options : FilterOptions,
        (s.apply use options text raw).result = .error e := by
      rw [hattrs] at he
      cases hdefaults : s.defaults.get? use.name with
      | none => exact ⟨_, by simpa [hdefaults] using he⟩
      | some defaults => exact ⟨_, by simpa [hdefaults] using he⟩
    obtain ⟨options, he⟩ := hoptions
    unfold apply at he
    cases hlookup : s.lookup use.name use.position with
    | error e' =>
      rw [hlookup] at he
      cases he
      exact isInternal_of_lookup hlookup
    | ok f =>
      simp only [hlookup] at he
      obtain ⟨complaint, rfl⟩ := exists_of_mapError_eq_error he
      rfl

theorem failsOnly_applyChain (file : Option Path) (uses : List FilterUse) (text : String)
    (raw : Option (List UInt8)) :
    (s.applyChain file uses text raw).FailsOnly fun e ↦ e.isInternal = false := by
  induction uses generalizing text raw with
  | nil => exact failsOnly_pure text
  | cons use uses ih => exact (failsOnly_applyWith use file text raw).bind fun _ ↦ ih _ _

theorem failsOnly_renderRaw {file : Reference} (hraw : file.raw.isSome) (htext : file.text.isSome)
    (uses : List FilterUse) (site : Position) :
    (s.renderRaw file uses site).FailsOnly fun e ↦ e.isInternal = false := by
  obtain ⟨raw, hraw⟩ := Option.isSome_iff_exists.mp hraw
  obtain ⟨text, htext⟩ := Option.isSome_iff_exists.mp htext
  simp only [renderRaw, hraw, htext]
  exact failsOnly_applyChain _ _ _ _

/-! ### Errors of rendering -/

/-- Rendering nodes whose references are populated. -/
theorem failsOnly_renderAll {ns : List Node} (h : ∀ r ∈ dependenciesAll ns, r.IsPopulated) :
    (s.renderAll ns).FailsOnly fun e ↦ e.isInternal = false := by
  have hdocument : ∀ d : Option Node,
      (s.renderAll d.toList).FailsOnly (fun e ↦ e.isInternal = false) →
      (s.renderDocument d).FailsOnly fun e ↦ e.isInternal = false := by
    intro d hd
    rw [renderAll_toList] at hd
    exact hd.of_bind
  induction ns using document_induction with
  | nil =>
    rw [renderAll_nil]
    exact failsOnly_pure []
  | cons n ns ihn ih =>
    rw [dependenciesAll_cons, List.forall_mem_append] at h
    have hn := ihn (by simpa using h.1)
    rw [renderAll_singleton] at hn
    rw [renderAll_cons]
    exact hn.of_bind.bind fun _ ↦ (ih h.2).bind fun _ ↦ failsOnly_pure _
  | leaf n hn ihd =>
    rw [dependenciesAll_singleton, dependencies_leaf hn, List.forall_mem_append] at h
    cases hf : n.isFiltered with
    | true =>
      obtain ⟨f, d, us, p, rfl, hus⟩ := exists_leaf_includesRaw hn hf
      have hfile := h.1 ⟨false, f, d, p⟩ (by simp [dependency?])
      rw [renderAll_includesRaw f d hus]
      exact (failsOnly_renderRaw hfile.raw hfile.text us p).bind fun _ ↦ failsOnly_pure _
    | false =>
      rw [renderAll_leaf hn hf]
      exact (hdocument _ (ihd h.2)).bind fun _ ↦ failsOnly_pure _
  | frame F inner ihd ih =>
    rw [dependenciesAll_singleton, dependencies_framed, List.forall_mem_append,
      List.forall_mem_append] at h
    cases hF : (framed F inner).isFiltered with
    | true =>
      obtain ⟨u, p, rfl⟩ := exists_frame_filter hF
      obtain ⟨x, hx, hall⟩ := renderAll_filter (s := s) u inner p
      have hfirst : x.FailsOnly fun e ↦ e.isInternal = false := by
        rcases hx with rfl | rfl
        · exact ih h.2.2
        · exact failsOnly_pure inner
      rw [framed, hall]
      exact hfirst.bind fun _ ↦ (failsOnly_applyWith _ _ _ _).bind fun _ ↦ failsOnly_pure _
    | false =>
      rw [renderAll_framed hF]
      exact (hdocument _ (ihd h.2.1)).bind fun _ ↦ (ih h.2.2).bind fun _ ↦ failsOnly_pure _
  | block k inner ih =>
    rw [renderAll_block]
    exact (ih (by simpa using h)).bind fun _ ↦ failsOnly_pure _

/-- Rendering a document whose references are populated. -/
theorem isInternal_of_render {n : Node} (h : ∀ r ∈ n.dependencies, r.IsPopulated)
    {e : TemplateError} (he : (s.render n).result = .error e) : e.isInternal = false := by
  have hall : (s.renderAll [n]).FailsOnly fun e ↦ e.isInternal = false :=
    failsOnly_renderAll (by simpa using h)
  rw [renderAll_singleton] at hall
  exact hall.of_bind e he

end FilterSet

end Templating
