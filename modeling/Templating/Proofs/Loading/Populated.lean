import Templating.Proofs.Linking.Standalone
import Templating.Proofs.Loading.Cycles

/-!
# Loaded references

Loading leaves no reference without content: the file is there as bytes and as text, and a
template beside it as a document (`Loads.isPopulated`). What makes a loading fail is a reference
that leads nowhere, a file that cannot be read or a text that is no template.
-/

namespace Templating

open Node Dependency

/-- The error means that a document was not loaded, that it is none, or that the compiler was set
up without a part. -/
def TemplateError.isInternal : TemplateError → Bool
  | .config _ | .notABlock _ | .unloaded .. => true
  | .resolution .. | .read .. | .malformed .. | .structural .. | .filterFailed .. => false

@[simp] theorem TemplateError.isInternal_via (e : TemplateError) (site : Position) :
    (e.via site).isInternal = e.isInternal := by
  cases e <;> rfl

/-- The reference holds what loading puts there. -/
structure Dependency.IsPopulated (r : Dependency) : Prop where
  raw : r.file.raw.isSome
  text : r.file.text.isSome
  document : r.asTemplate → ∃ b, r.document = some (.group b)

/-! ### Documents are groups -/

/-- The parser makes groups. -/
def Capabilities.ParsesGroups (caps : Capabilities) : Prop :=
  ∀ ls src n, caps.parse ls src = .ok n → n.isGroup

theorem Grammar.isGroup_of_parse {ls : List Lexeme} {src : Source} {n : Node}
    (h : Grammar.parse ls src = .ok n) : n.isGroup := by
  have hdocument : (Grammar.document src).Ensures fun n ↦ n.isGroup := by
    intro c kept n d hn
    have hgroup := (Parser.Ensures.trivial (Parser.many (statement src (c.rest.length + 1)))).bind
      (Q := fun n : Node ↦ n.isGroup) fun ns _ ↦
        (Parser.Ensures.trivial Parser.endOfText).bind fun _ _ ↦
          .pure (a := Node.group ⟨ns, ⟨src.file, 1⟩⟩) rfl
    exact hgroup c kept n d hn
  unfold Grammar.parse at h
  split at h
  · next m f kept hm =>
    cases h
    exact hdocument _ none n f (by rw [hm])
  · cases h
  · cases h

theorem Capabilities.parsesGroups_standard (read : Path → Except String (List UInt8))
    (base : Option Path) : (Capabilities.standard read base).ParsesGroups := by
  intro ls src n h
  change src.documentOf ls = .ok n at h
  unfold Source.documentOf at h
  split at h
  · next m hm =>
    cases h
    exact Grammar.isGroup_of_parse hm
  · cases h

section

variable {caps : Capabilities} {depth : Nat} {opened : List Path} {src : Source} {n : Node}

/-- Loading keeps the document a group. -/
theorem isGroup_of_openText (hgroups : caps.ParsesGroups)
    (h : (openText caps depth opened src).Yields n) : n.isGroup := by
  cases depth with
  | zero => exact absurd h openText_zero_not_yields
  | succ depth =>
    simp only [openText, Load.bind_yields, Load.ofExcept_yields] at h
    obtain ⟨ls, -, n₀, hn₀, h⟩ := h
    obtain ⟨⟨ns, p⟩, rfl⟩ := exists_group_of_isGroup (hgroups ls src n₀ hn₀)
    simp only [populate, Load.bind_yields, Load.pure_yields] at h
    obtain ⟨ms, -, rfl⟩ := h
    rfl

/-! ### What loading leaves behind -/

theorem isPopulated_of_fill (hgroups : caps.ParsesGroups) {r₀ r : Dependency}
    (h : (fill caps (caps.opener depth) opened r₀).Yields r) : r.IsPopulated := by
  cases ht : r₀.asTemplate with
  | false =>
    obtain ⟨target, raw, -, -, rfl⟩ := (fill_raw_yields ht).mp h
    refine ⟨rfl, rfl, fun ht' ↦ ?_⟩
    simp [loadedFrom, ht] at ht'
  | true =>
    obtain ⟨target, raw, d, hopens, rfl⟩ := (fill_template_yields ht).mp h
    obtain ⟨b, rfl⟩ := exists_group_of_isGroup (isGroup_of_openText hgroups hopens.document)
    exact ⟨rfl, rfl, fun _ ↦ ⟨b, rfl⟩⟩

/-- Every reference of a loaded document, however deep, is populated. -/
theorem Loads.isPopulated (hcaps : caps.ParsesFresh) (hgroups : caps.ParsesGroups)
    (h : Loads caps depth n) : n.isGroup ∧ ∀ r ∈ n.dependencies, r.IsPopulated := by
  obtain ⟨opened, src, h⟩ := h.exists_openText
  refine ⟨isGroup_of_openText hgroups h, fun r hr ↦ ?_⟩
  obtain ⟨_, _, _, -, -, -, hfill⟩ := exists_fill_of_mem_dependencies hcaps h hr
  exact isPopulated_of_fill hgroups hfill

end

/-! ### Errors of loading -/

section

variable {read : Path → Except String (List UInt8)} {base : Option Path} {depth : Nat}
  {e : TemplateError}

theorem isInternal_of_resolveReference {source : Option Path} {written : String}
    (h : resolveReference base written source = .error e) : e.isInternal = false := by
  rcases resolveReference_cases base written source with ⟨p, hp⟩ | ⟨cause, -, he⟩
  · rw [hp] at h
    cases h
  · rw [he, Except.error.injEq] at h
    subst h
    rfl

theorem isInternal_of_checkCircular {opened : List Path} {written : String} {target : Path}
    (h : checkCircular opened written target = .error e) : e.isInternal = false := by
  unfold checkCircular at h
  split at h <;> cases h
  rfl

theorem Capabilities.Refuses.isInternal_eq_false {src : Source}
    (h : (Capabilities.standard read base).Refuses src e) : e.isInternal = false := by
  obtain ⟨errors, rfl⟩ := h.exists_malformed
  rfl

theorem isInternal_of_openText_fails {opened : List Path} {src : Source}
    (h : (openText (.standard read base) depth opened src).Fails e) : e.isInternal = false := by
  induction depth generalizing opened src e with
  | zero => exact absurd h Load.none_not_fails
  | succ depth ih =>
    rcases openText_cases (Capabilities.parsesFresh_standard read base) src with
      ⟨e', hrefuses, herror⟩ | ⟨n₀, build, hb⟩
    · rw [herror, Load.ofExcept_fails, Except.error.injEq] at h
      exact h ▸ hrefuses.isInternal_eq_false
    · rw [hb.openText_eq, Load.bind_fails] at h
      obtain h | ⟨_, -, h⟩ := h
      · obtain ⟨r, -, h⟩ := Load.exists_fails_of_mapM h
        obtain ⟨e', rfl, hcause⟩ := fill_fails h
        rw [TemplateError.isInternal_via]
        rw [standard_resolve] at hcause
        obtain hcause | ⟨target, -, ⟨reason, -, rfl⟩ | ⟨-, hcircular | ⟨raw, -, hnested⟩⟩⟩ := hcause
        · exact isInternal_of_resolveReference hcause
        · rfl
        · exact isInternal_of_checkCircular hcircular
        · exact ih hnested
      · exact absurd h Load.pure_fails

theorem isInternal_of_loadFile_fails {p : Path}
    (h : (loadFile (.standard read base) depth p).Fails e) : e.isInternal = false := by
  rw [loadFile, Load.bind_fails] at h
  obtain h | ⟨raw, -, h⟩ := h
  · obtain ⟨reason, -, rfl⟩ := Load.read_fails.mp h
    rfl
  · exact isInternal_of_openText_fails h

end

end Templating
