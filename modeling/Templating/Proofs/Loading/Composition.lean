import Templating.Files.Memory
import Templating.Proofs.Loading.Opening

/-!
# Loading is compositional

The document that is loaded for a reference is the one that its file is loaded to by itself
(`loaded_compositional`): the files that were open, and the documents around the reference, have
no part in it. Walking through a loaded document again, as the loading of every enclosing document
does, leaves it as it is (`Loads.populate_eq_pure`).
-/

namespace Templating

open Node Dependency

/-- The document is the result of loading a text or a file. -/
def Loads (caps : Capabilities) (depth : Nat) (n : Node) : Prop :=
  (∃ src, (loadSource caps depth src).Yields n) ∨ ∃ p, (loadFile caps depth p).Yields n

/-- A reference is resolved to a normalised path, or the path that it begins from is missing. -/
theorem resolveReference_cases (base : Option Path) (written : String) (source : Option Path) :
    (∃ p : Path, resolveReference base written source = .ok p.normalize) ∨
      ∃ cause, (cause = .noBaseDirectory ∨ cause = .noFileName) ∧
        resolveReference base written source =
          .error (.resolution (Text.trim written) cause []) := by
  simp only [resolveReference]
  by_cases hrooted : ∃ rooted, (Text.trim written).toList = '/' :: rooted
  · obtain ⟨rooted, hrooted⟩ := hrooted
    simp only [hrooted]
    cases base with
    | none => exact .inr ⟨_, .inl rfl, rfl⟩
    | some dir => exact .inl ⟨_, rfl⟩
  · have hrelative : ∀ rooted, (Text.trim written).toList ≠ '/' :: rooted :=
      fun rooted he ↦ hrooted ⟨rooted, he⟩
    cases source with
    | none => exact .inr ⟨.noFileName, .inr rfl, by simp⟩
    | some file => exact .inl ⟨(file.parent?.getD ⟨""⟩).join ⟨Text.trim written⟩, by simp⟩

/-- Resolved paths are normalised. -/
theorem exists_normalize_of_resolve {base source : Option Path} {written : String} {target : Path}
    (h : resolveReference base written source = .ok target) : ∃ p : Path, target = p.normalize := by
  rcases resolveReference_cases base written source with ⟨p, hp⟩ | ⟨cause, -, he⟩
  · rw [hp, Except.ok.injEq] at h
    exact ⟨p, h.symm⟩
  · rw [he] at h
    cases h

section

variable {read : Path → Except String (List UInt8)} {base : Option Path}

theorem standard_resolve : (Capabilities.standard read base).resolve = resolveReference := by
  rw [Capabilities.standard]

/-- The files that are opened are normalised. -/
theorem Dependency.Opens.exists_normalize {depth : Nat} {opened : List Path} {r : Dependency}
    {target : Path} {raw : List UInt8} {d : Node}
    (h : r.Opens (.standard read base) depth opened target raw d) :
    ∃ p : Path, target = p.normalize := by
  have hresolve := h.resolve
  rw [standard_resolve] at hresolve
  exact exists_normalize_of_resolve hresolve

end

section

variable {caps : Capabilities} {depth depth' : Nat} {opened : List Path} {n d : Node}

theorem loadFile_yields {p : Path} :
    (loadFile caps depth p).Yields n ↔ ∃ raw, caps.read p = .ok raw ∧
      (openText caps depth [p] ⟨Utf8.decodeLossy raw, some p⟩).Yields n := by
  simp only [loadFile, loadSource, Load.bind_yields, Load.read_yields, Option.toList_some]

theorem Loads.exists_openText (h : Loads caps depth n) :
    ∃ opened src, (openText caps depth opened src).Yields n := by
  obtain ⟨src, h⟩ | ⟨p, h⟩ := h
  · exact ⟨_, _, h⟩
  · obtain ⟨raw, -, h⟩ := loadFile_yields.mp h
    exact ⟨_, _, h⟩

/-- A deeper bound changes no answer. -/
theorem loadFile_le (hcaps : caps.ParsesFresh) (hle : depth ≤ depth') (p : Path) :
    (loadFile caps depth p).Le (loadFile caps depth' p) :=
  .bind (.refl _) fun _ ↦ openText_le hcaps hle _ _

/-- Walking through a loaded document again leaves it as it is. -/
theorem Loads.populate_eq_pure (hcaps : caps.ParsesFresh) (h : Loads caps depth n)
    (caps' : Capabilities) (openDocument : Opener) :
    populate caps' openDocument opened n = pure n := by
  obtain ⟨_, _, h⟩ := h.exists_openText
  exact Node.populate_eq_pure (isLoaded_of_openText hcaps h)

/-- The file of an opened document is loaded to that document, whatever was open. -/
theorem loadFile_yields_of_opens (hcaps : caps.ParsesFresh) {r₀ : Dependency} {target : Path}
    {raw : List UInt8} (h : r₀.Opens caps depth opened target raw d) (hle : depth ≤ depth') :
    (loadFile caps depth' target).Yields d := by
  refine loadFile_yields.mpr ⟨raw, h.read, (openText_le hcaps hle _ _).yields ?_⟩
  exact openText_yields_of_subset hcaps (List.subset_append_right _ _) h.document

/-- A reference to a template in a loaded document was opened from its file. -/
theorem Loads.exists_opens (hcaps : caps.ParsesFresh) (h : Loads caps depth n) {r : Dependency}
    (hr : r ∈ n.dependencies) (ht : r.asTemplate) :
    ∃ depth' opened target raw d, ∃ r₀ : Dependency, depth' ≤ depth ∧
      r₀.Opens caps depth' opened target raw d ∧ r = r₀.loadedFrom target raw (some d) := by
  obtain ⟨_, _, h⟩ := h.exists_openText
  obtain ⟨depth', opened', r₀, hlt, -, -, hfill⟩ := exists_fill_of_mem_dependencies hcaps h hr
  rw [(fill_fits hfill).1] at ht
  obtain ⟨target, raw, d, hopens, he⟩ := (fill_template_yields ht).mp hfill
  exact ⟨depth', opened', target, raw, d, r₀, Nat.le_of_lt hlt, hopens, he⟩

end

/-- Every reference to a template in a loaded document, at any depth, holds what its file is read
and loaded to by itself. So references to one file hold one document, wherever they stand. -/
theorem loaded_compositional (read : Path → Except String (List UInt8)) (base : Option Path) :
    (∀ depth n, Loads (.standard read base) depth n → ∀ r ∈ n.dependencies, r.asTemplate →
      ∃ target raw d, r.file.target = some target ∧ read target = .ok raw ∧
        r.file.raw = some raw ∧ r.file.text = some (Utf8.decodeLossy raw) ∧ r.document = some d ∧
        (loadFile (.standard read base) depth target).Yields d) ∧
    ∀ depth₁ n₁ depth₂ n₂, Loads (.standard read base) depth₁ n₁ →
      Loads (.standard read base) depth₂ n₂ →
      ∀ r₁ ∈ n₁.dependencies, ∀ r₂ ∈ n₂.dependencies, r₁.asTemplate → r₂.asTemplate →
      ∀ t₁ ∈ r₁.file.target, ∀ t₂ ∈ r₂.file.target, t₁.same t₂ → r₁.document = r₂.document := by
  have hcaps := Capabilities.parsesFresh_standard read base
  constructor
  · intro depth n h r hr ht
    obtain ⟨_, _, target, raw, d, _, hle, hopens, rfl⟩ := h.exists_opens hcaps hr ht
    exact ⟨target, raw, d, rfl, hopens.read, rfl, rfl, rfl,
      loadFile_yields_of_opens hcaps hopens hle⟩
  · intro depth₁ n₁ depth₂ n₂ h₁ h₂ r₁ hr₁ r₂ hr₂ ht₁ ht₂ t₁ hm₁ t₂ hm₂ hsame
    obtain ⟨_, _, target₁, raw₁, d₁, _, hle₁, hopens₁, rfl⟩ := h₁.exists_opens hcaps hr₁ ht₁
    obtain ⟨_, _, target₂, raw₂, d₂, _, hle₂, hopens₂, rfl⟩ := h₂.exists_opens hcaps hr₂ ht₂
    obtain rfl : target₁ = t₁ := Option.some.inj hm₁
    obtain rfl : target₂ = t₂ := Option.some.inj hm₂
    obtain ⟨p₁, hp₁⟩ := hopens₁.exists_normalize
    obtain ⟨p₂, hp₂⟩ := hopens₂.exists_normalize
    have htarget : target₁ = target₂ := by
      rw [hp₁, hp₂] at hsame ⊢
      exact Path.normalize_eq_of_same hsame
    have hd₁ := loadFile_yields_of_opens hcaps hopens₁
      (hle₁.trans (Nat.le_max_left depth₁ depth₂))
    have hd₂ := loadFile_yields_of_opens hcaps hopens₂
      (hle₂.trans (Nat.le_max_right depth₁ depth₂))
    rw [htarget] at hd₁
    exact congrArg some (hd₁.unique hd₂)

/-- Files of which two refer to the third. -/
def siteFiles : MemoryFiles := ⟨[
  (⟨"/home.tmpl"⟩,
    Utf8.encode "extends \"layout.tmpl\" block main \x7b include \"card.tmpl\" \x7d"),
  (⟨"/layout.tmpl"⟩, Utf8.encode "include \"./card.tmpl\" block main \x7b \x7d"),
  (⟨"/card.tmpl"⟩, Utf8.encode "\"card\"")]⟩

theorem loaded_compositional_siteFiles :
    ∃ n, Loads (.standard siteFiles.read none) 3 n ∧
      ∃ r₁ ∈ n.dependencies, ∃ r₂ ∈ n.dependencies, r₁.site ≠ r₂.site ∧
        r₁.asTemplate ∧ r₂.asTemplate ∧
        (∃ t₁ ∈ r₁.file.target, ∃ t₂ ∈ r₂.file.target, t₁.same t₂) ∧
        (∃ target raw d, r₁.file.target = some target ∧ siteFiles.read target = .ok raw ∧
          r₁.file.raw = some raw ∧ r₁.file.text = some (Utf8.decodeLossy raw) ∧
          r₁.document = some d ∧
          (loadFile (.standard siteFiles.read none) 3 target).Yields d) ∧
        r₁.document = r₂.document := by
  obtain ⟨log, n, hn, r₁, hr₁, r₂, hr₂, hsite, ht₁, ht₂, t₁, hm₁, t₂, hm₂, hsame⟩ :=
    Logged.exists_of_any (x := loadFile (.standard siteFiles.read none) 3 ⟨"/home.tmpl"⟩)
      (P := fun n ↦ ∃ r₁ ∈ n.dependencies, ∃ r₂ ∈ n.dependencies, r₁.site ≠ r₂.site ∧
        r₁.asTemplate ∧ r₂.asTemplate ∧
        ∃ t₁ ∈ r₁.file.target, ∃ t₂ ∈ r₂.file.target, t₁.same t₂) (by decide +kernel)
  have hl : Loads (.standard siteFiles.read none) 3 n := .inr ⟨_, log, hn⟩
  obtain ⟨hloads, hequal⟩ := loaded_compositional siteFiles.read none
  exact ⟨n, hl, r₁, hr₁, r₂, hr₂, hsite, ht₁, ht₂, ⟨t₁, hm₁, t₂, hm₂, hsame⟩,
    hloads 3 n hl r₁ hr₁ ht₁,
    hequal 3 n 3 n hl hl r₁ hr₁ r₂ hr₂ ht₁ ht₂ t₁ hm₁ t₂ hm₂ hsame⟩

end Templating
