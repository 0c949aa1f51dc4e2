import Templating.Proofs.Compilation
import Templating.Proofs.Filter.Populated
import Templating.Proofs.Linking.Failures

/-!
# Loading makes linking safe

Rendering and linking take the content of references for granted. In a compilation they never miss
it: loading has populated every reference that they come across (`compile_safe`).
-/

namespace Templating

open Node

/-- An error of a compilation comes from loading, from rendering or from linking. -/
theorem finishLoad_eq_error {filters : FilterSet} {x : Load Node} {log : List Deed}
    {e : TemplateError} (h : finishLoad filters x = some ⟨log, .error e⟩) :
    x.Fails e ∨ ∃ n, x.Yields n ∧ ((filters.render n).result = .error e ∨
      ∃ n', (filters.render n).result = .ok n' ∧ link n' = .error e) := by
  obtain ⟨⟨log', result⟩, rfl, hy⟩ := Option.map_eq_some_iff.mp h
  have hresult : ((Logged.mk log' result).relabel Deed.read >>= finish filters).result =
      .error e := congrArg Logged.result hy
  rcases Logged.bind_result_eq_error.mp hresult with hload | ⟨n, hn, hfinish⟩
  · exact .inl (Load.some_fails.mpr hload)
  · refine .inr ⟨n, Load.some_yields.mpr hn, ?_⟩
    exact (Logged.bind_result_eq_error.mp hfinish).imp id fun ⟨n', hn', he⟩ ↦ ⟨n', hn', he⟩

section

variable {read : Path → Except String (List UInt8)} {base : Option Path} {filters : FilterSet}
  {depth : Nat} {n n' : Node}

/-- A loaded document that has been rendered has the references it had, and they are populated. -/
theorem Loads.renderAll (h : Loads (.standard read base) depth n)
    (hn' : (filters.render n).result = .ok n') :
    RenderAll [n] [n'] ∧ n'.isGroup ∧ ∀ r ∈ n'.dependencies, r.IsPopulated := by
  obtain ⟨hgroup, hpopulated⟩ := h.isPopulated (Capabilities.parsesFresh_standard read base)
    (Capabilities.parsesGroups_standard read base)
  have hrender := renderAll_of_rendered (FilterSet.rendered_of_render hn')
  refine ⟨hrender, (List.forall₂_cons.mp hrender.groups).1 hgroup, fun r' hr' ↦ ?_⟩
  obtain ⟨r, hr, hrr⟩ := hrender.dependencies r' (by simpa using hr')
  exact hrr.isPopulated (hpopulated r (by simpa using hr))

theorem isInternal_of_finishLoad {x : Load Node} {log : List Deed} {e : TemplateError}
    (hload : ∀ n, x.Yields n → Loads (.standard read base) depth n)
    (hfail : ∀ e, x.Fails e → e.isInternal = false)
    (h : finishLoad filters x = some ⟨log, .error e⟩) : e.isInternal = false := by
  rcases finishLoad_eq_error h with h | ⟨n, hn, hrender | ⟨n', hn', hlink⟩⟩
  · exact hfail e h
  · have hpopulated := (hload n hn).isPopulated (Capabilities.parsesFresh_standard read base)
      (Capabilities.parsesGroups_standard read base)
    exact FilterSet.isInternal_of_render hpopulated.2 hrender
  · obtain ⟨-, hgroup, hpopulated⟩ := (hload n hn).renderAll hn'
    exact isInternal_of_link hgroup hpopulated hlink

end

/-- A compilation with the default language never ends because a document was not loaded, because a
document is none, or because the compiler lacks a part, whatever its configuration. All references
of a loaded document are populated, at any depth, and so are those that are left when its filters
have been rendered, each of which was there before. -/
theorem compile_safe (c : Config) (read : Path → Except String (List UInt8)) :
    (CapabilityDraft.standard read c.base).complete = .ok (c.capabilities read) ∧
      (∀ depth n, Loads (c.capabilities read) depth n →
        (∀ r ∈ n.dependencies, r.IsPopulated) ∧
          ∀ n', (c.filters.render n).result = .ok n' → ∀ r' ∈ n'.dependencies,
            r'.IsPopulated ∧ ∃ r ∈ n.dependencies, r.RendersTo r') ∧
      (∀ depth src log e,
        compileSource (c.capabilities read) c.filters depth src = some ⟨log, .error e⟩ →
          e.isInternal = false) ∧
      ∀ depth p log e,
        compileFile (c.capabilities read) c.filters depth p = some ⟨log, .error e⟩ →
          e.isInternal = false := by
  refine ⟨CapabilityDraft.complete_standard read c.base, fun depth n h ↦ ⟨?_, ?_⟩,
    fun depth src log e h ↦ ?_, fun depth p log e h ↦ ?_⟩
  · exact (h.isPopulated (Capabilities.parsesFresh_standard read c.base)
      (Capabilities.parsesGroups_standard read c.base)).2
  · intro n' hn' r' hr'
    obtain ⟨hrender, -, hpopulated⟩ := Loads.renderAll h hn'
    obtain ⟨r, hr, hrr⟩ := hrender.dependencies r' (by simpa using hr')
    exact ⟨hpopulated r' hr', r, by simpa using hr, hrr⟩
  · exact isInternal_of_finishLoad (fun n hn ↦ .inl ⟨src, hn⟩)
      (fun _ ↦ isInternal_of_openText_fails) h
  · exact isInternal_of_finishLoad (fun n hn ↦ .inr ⟨p, hn⟩)
      (fun _ ↦ isInternal_of_loadFile_fails) h

theorem compile_safe_reportFiles :
    (∃ n, Loads (Config.standard.capabilities reportFiles.read) 3 n ∧ n.dependencies.length = 3 ∧
      ∀ r ∈ n.dependencies, r.IsPopulated) ∧
    (∃ log e, compileSource (Config.standard.capabilities reportFiles.read)
        Config.standard.filters 2 ⟨":lower \x7b \"d\" \x7d", none⟩ = some ⟨log, .error e⟩ ∧
      e.isInternal = false) ∧
    ∃ log e, compileFile (Config.standard.capabilities reportFiles.read)
        Config.standard.filters 2 ⟨"/gone.tmpl"⟩ = some ⟨log, .error e⟩ ∧
      e.isInternal = false := by
  obtain ⟨-, hloads, hsource, hfile⟩ := compile_safe Config.standard reportFiles.read
  refine ⟨?_, ?_, ?_⟩
  · obtain ⟨log, n, hn, hlength⟩ := Logged.exists_of_any
      (x := loadFile (Config.standard.capabilities reportFiles.read) 3 ⟨"/report.tmpl"⟩)
      (P := fun n ↦ n.dependencies.length = 3) (by decide +kernel)
    have h : Loads (Config.standard.capabilities reportFiles.read) 3 n := .inr ⟨_, log, hn⟩
    exact ⟨n, h, hlength, (hloads 3 n h).1⟩
  · obtain ⟨log, e, he, -⟩ := Logged.exists_error_of_any
      (x := compileSource (Config.standard.capabilities reportFiles.read)
        Config.standard.filters 2 ⟨":lower \x7b \"d\" \x7d", none⟩)
      (P := fun _ ↦ True) (by decide +kernel)
    exact ⟨log, e, he, hsource _ _ _ _ he⟩
  · obtain ⟨log, e, he, -⟩ := Logged.exists_error_of_any
      (x := compileFile (Config.standard.capabilities reportFiles.read)
        Config.standard.filters 2 ⟨"/gone.tmpl"⟩)
      (P := fun _ ↦ True) (by decide +kernel)
    exact ⟨log, e, he, hfile _ _ _ _ he⟩

end Templating
