import Mathlib.Data.List.TakeWhile
import Templating.Proofs.Grammar.Parsed
import Templating.Proofs.Path

/-!
# Opening documents

Opening the document of a text reads it and fetches its references, and opens the documents of
these in turn. Which files are open decides only whether this fails, and a deeper bound changes no
answer (`openText_yields_of_subset`, `openText_le`). Every reference in an opened document, however
deep, was filled in by one fetch (`exists_fill_of_mem_dependencies`).
-/

namespace Templating

open Node Dependency

/-- The parser leaves references alone: they name their file, and nothing is loaded. -/
def Capabilities.ParsesFresh (caps : Capabilities) : Prop :=
  ∀ ls src n, caps.parse ls src = .ok n → Fresh src.file [n]

theorem Capabilities.parsesFresh_standard (read : Path → Except String (List UInt8))
    (base : Option Path) : (Capabilities.standard read base).ParsesFresh :=
  fun _ _ _ h ↦ Source.fresh_of_documentOf h

/-- Opening with documents nested at most `depth` deep. -/
def Capabilities.opener (caps : Capabilities) (depth : Nat) : Opener :=
  fun opened text file ↦ openText caps depth opened ⟨text, some file⟩

theorem checkCircular_eq_ok {opened : List Path} {written : String} {target : Path} :
    checkCircular opened written target = .ok () ↔ ∀ p ∈ opened, p.Apart target := by
  unfold checkCircular Path.Apart
  split
  · next h => simpa using List.dropWhile_eq_nil_iff.mp h
  · next chain h =>
    simp only [reduceCtorEq, false_iff]
    intro hall
    exact h (List.dropWhile_eq_nil_iff.mpr (by simpa using hall))

namespace Dependency

/-- The dependency, loaded from a file. -/
def loadedFrom (r : Dependency) (target : Path) (raw : List UInt8) (d : Option Node) :
    Dependency :=
  { r with
    file := { r.file with
      target := some target, raw := some raw, text := some (Utf8.decodeLossy raw) }
    document := d }

/-- The reference `r` to a template leads to the file `target`, which none of the open files is,
and its content is opened as the document `d`. -/
structure Opens (caps : Capabilities) (depth : Nat) (opened : List Path) (r : Dependency)
    (target : Path) (raw : List UInt8) (d : Node) : Prop where
  resolve : caps.resolve caps.base r.file.path r.file.source = .ok target
  apart : ∀ p ∈ opened, p.Apart target
  read : caps.read target = .ok raw
  document : (openText caps depth (opened ++ [target]) ⟨Utf8.decodeLossy raw, some target⟩).Yields d

end Dependency

variable {caps : Capabilities} {depth : Nat} {opened : List Path} {src : Source} {n : Node}

theorem fill_template_yields {r₀ r : Dependency} (h : r₀.asTemplate) :
    (fill caps (caps.opener depth) opened r₀).Yields r ↔
      ∃ target raw d, r₀.Opens caps depth opened target raw d ∧
        r = r₀.loadedFrom target raw (some d) := by
  obtain ⟨asTemplate, file, document, site⟩ := r₀
  obtain rfl : asTemplate = true := h
  simp only [fill, Load.bind_yields, Load.pure_yields]
  constructor
  · rintro ⟨⟨f, d⟩, hfetch, rfl⟩
    obtain ⟨target, raw, n, htarget, hcircular, hread, hn, rfl, rfl⟩ :=
      fetch_template_yields.mp hfetch
    exact ⟨target, raw, n, ⟨htarget, checkCircular_eq_ok.mp hcircular, hread, hn⟩, rfl⟩
  · rintro ⟨target, raw, n, h, rfl⟩
    exact ⟨_, fetch_template_yields.mpr ⟨target, raw, n, h.resolve,
      checkCircular_eq_ok.mpr h.apart, h.read, h.document, rfl, rfl⟩, rfl⟩

theorem fill_raw_yields {r₀ r : Dependency} (h : r₀.asTemplate = false) {openDocument : Opener} :
    (fill caps openDocument opened r₀).Yields r ↔
      ∃ target raw, caps.resolve caps.base r₀.file.path r₀.file.source = .ok target ∧
        caps.read target = .ok raw ∧ r = r₀.loadedFrom target raw none := by
  obtain ⟨asTemplate, file, document, site⟩ := r₀
  obtain rfl : asTemplate = false := h
  simp only [fill, Load.bind_yields, Load.pure_yields]
  constructor
  · rintro ⟨⟨f, d⟩, hfetch, rfl⟩
    obtain ⟨target, raw, htarget, hread, rfl, rfl⟩ := fetch_raw_yields.mp hfetch
    exact ⟨target, raw, htarget, hread, rfl⟩
  · rintro ⟨target, raw, htarget, hread, rfl⟩
    exact ⟨_, fetch_raw_yields.mpr ⟨target, raw, htarget, hread, rfl, rfl⟩, rfl⟩

/-- What a fetch yields is loaded. -/
theorem isLoaded_of_fill {r₀ r : Dependency}
    (h : (fill caps (caps.opener depth) opened r₀).Yields r) : r.file.isLoaded := by
  cases ht : r₀.asTemplate with
  | false =>
    obtain ⟨_, _, _, _, rfl⟩ := (fill_raw_yields ht).mp h
    rfl
  | true =>
    obtain ⟨_, _, _, _, rfl⟩ := (fill_template_yields ht).mp h
    rfl

/-- A text that is not read as a document. -/
def Capabilities.Refuses (caps : Capabilities) (src : Source) (e : TemplateError) : Prop :=
  caps.lex src = .error e ∨ ∃ ls, caps.lex src = .ok ls ∧ caps.parse ls src = .error e

/-- The default language refuses a text for faults in it. -/
theorem Capabilities.Refuses.exists_malformed {read : Path → Except String (List UInt8)}
    {base : Option Path} {e : TemplateError}
    (h : (Capabilities.standard read base).Refuses src e) :
    ∃ errors, e = .malformed src errors [] := by
  obtain h | ⟨ls, -, h⟩ := h
  · change src.tokens = .error e at h
    unfold Source.tokens at h
    split at h <;> cases h
    exact ⟨_, rfl⟩
  · change src.documentOf ls = .error e at h
    unfold Source.documentOf at h
    split at h <;> cases h
    exact ⟨_, rfl⟩

/-- A text that is read as a document. -/
def Capabilities.Reads (caps : Capabilities) (src : Source) (n : Node) : Prop :=
  ∃ ls, caps.lex src = .ok ls ∧ caps.parse ls src = .ok n

/-- Opening puts what is fetched for the references of the parsed document `n₀` in their places. -/
structure Capabilities.Assembles (caps : Capabilities) (src : Source) (n₀ : Node)
    (build : List Dependency → Node) : Prop where
  reads : caps.Reads src n₀
  fresh : ∀ r ∈ n₀.dependencies, r.IsFresh src.file
  openText_eq : ∀ depth opened, openText caps (depth + 1) opened src =
    n₀.dependencies.mapM (fill caps (caps.opener depth) opened) >>= fun rs ↦ pure (build rs)
  dependencies_eq : ∀ rs, List.Forall₂ Fits n₀.dependencies rs →
    (build rs).dependencies = rs.flatMap unfolded

/-- A text is refused, or its document is assembled from its references. -/
theorem openText_cases (hcaps : caps.ParsesFresh) (src : Source) :
    (∃ e, caps.Refuses src e ∧
      ∀ depth opened, openText caps (depth + 1) opened src = Load.ofExcept (.error e)) ∨
    ∃ n₀ build, caps.Assembles src n₀ build := by
  cases hls : caps.lex src with
  | error e =>
    refine .inl ⟨e, .inl hls, fun depth opened ↦ ?_⟩
    rw [openText, hls, Load.ofExcept_error_bind]
  | ok ls =>
    cases hn₀ : caps.parse ls src with
    | error e =>
      refine .inl ⟨e, .inr ⟨ls, hls, hn₀⟩, fun depth opened ↦ ?_⟩
      rw [openText, hls, Load.ofExcept_ok, pure_bind, hn₀, Load.ofExcept_error_bind]
    | ok n₀ =>
      have hfresh := hcaps ls src n₀ hn₀
      rw [Fresh, dependenciesAll_singleton] at hfresh
      obtain ⟨build, hpop, hbuild⟩ := exists_populate_eq fun r hr ↦ (hfresh r hr).isPending
      refine .inr ⟨n₀, build, ⟨ls, hls, hn₀⟩, hfresh, fun depth opened ↦ ?_, hbuild⟩
      rw [← hpop, openText, hls, Load.ofExcept_ok, pure_bind, hn₀, Load.ofExcept_ok, pure_bind]
      rfl

namespace Capabilities.Assembles

variable {n₀ : Node} {build : List Dependency → Node}

theorem yields (h : caps.Assembles src n₀ build) :
    (openText caps (depth + 1) opened src).Yields n ↔
      ∃ rs, List.Forall₂ (fun r₀ r ↦ (fill caps (caps.opener depth) opened r₀).Yields r)
        n₀.dependencies rs ∧ build rs = n := by
  simp only [h.openText_eq, Load.bind_yields, Load.pure_yields, Load.mapM_yields]

/-- The references of an opened document. -/
theorem dependencies (h : caps.Assembles src n₀ build) {rs : List Dependency}
    (hrs : List.Forall₂ (fun r₀ r ↦ (fill caps (caps.opener depth) opened r₀).Yields r)
      n₀.dependencies rs) : (build rs).dependencies = rs.flatMap unfolded :=
  h.dependencies_eq rs (hrs.imp fun _ _ ↦ fill_fits)

end Capabilities.Assembles

theorem openText_zero_not_yields : ¬ (openText caps 0 opened src).Yields n :=
  Load.none_not_yields

/-- What is opened is assembled. -/
theorem exists_assembles_of_yields (hcaps : caps.ParsesFresh)
    (h : (openText caps (depth + 1) opened src).Yields n) :
    ∃ n₀ build, caps.Assembles src n₀ build := by
  rcases openText_cases hcaps src with ⟨e, -, herror⟩ | hb
  · simp [herror] at h
  · exact hb

theorem exists_of_mem_forall₂ {α β : Type} {R : α → β → Prop} {as : List α} {bs : List β}
    (h : List.Forall₂ R as bs) {b : β} (hb : b ∈ bs) : ∃ a ∈ as, R a b := by
  induction h with
  | nil => cases hb
  | cons hab _ ih =>
    rcases List.mem_cons.mp hb with rfl | hb
    · exact ⟨_, List.mem_cons_self, hab⟩
    · obtain ⟨a, ha, hab⟩ := ih hb
      exact ⟨a, List.mem_cons_of_mem _ ha, hab⟩

/-- Every reference in an opened document was filled in while at least the files were open that
were at the beginning. -/
theorem exists_fill_of_mem_dependencies (hcaps : caps.ParsesFresh)
    (h : (openText caps depth opened src).Yields n) {r : Dependency} (hr : r ∈ n.dependencies) :
    ∃ depth' opened' r₀, depth' < depth ∧ opened <+: opened' ∧
      (opened.Pairwise Path.Apart → opened'.Pairwise Path.Apart) ∧
      (fill caps (caps.opener depth') opened' r₀).Yields r := by
  induction depth generalizing opened src n with
  | zero => exact absurd h openText_zero_not_yields
  | succ depth ih =>
    obtain ⟨n₀, build, hb⟩ := exists_assembles_of_yields hcaps h
    obtain ⟨rs, hrs, rfl⟩ := hb.yields.mp h
    rw [hb.dependencies hrs, List.mem_flatMap] at hr
    obtain ⟨s, hs, hr⟩ := hr
    obtain ⟨s₀, -, hfill⟩ := exists_of_mem_forall₂ hrs hs
    rcases List.mem_cons.mp hr with rfl | hr
    · exact ⟨depth, opened, s₀, Nat.lt_succ_self _, List.prefix_refl _, id, hfill⟩
    · cases ht : s₀.asTemplate with
      | false =>
        obtain ⟨_, _, _, _, rfl⟩ := (fill_raw_yields ht).mp hfill
        cases hr
      | true =>
        obtain ⟨target, raw, d, hopens, rfl⟩ := (fill_template_yields ht).mp hfill
        have hr : r ∈ d.dependencies := by simpa [loadedFrom] using hr
        obtain ⟨depth', opened', r₀, hlt, hprefix, hapart, hfill⟩ := ih hopens.document hr
        refine ⟨depth', opened', r₀, Nat.lt_succ_of_lt hlt,
          (List.prefix_append _ _).trans hprefix, fun hopened ↦ hapart ?_, hfill⟩
        simpa [List.pairwise_append] using ⟨hopened, hopens.apart⟩

/-- All references in an opened document are loaded. -/
theorem isLoaded_of_openText (hcaps : caps.ParsesFresh)
    (h : (openText caps depth opened src).Yields n) : ∀ r ∈ n.dependencies, r.file.isLoaded := by
  intro r hr
  obtain ⟨_, _, _, -, -, -, hfill⟩ := exists_fill_of_mem_dependencies hcaps h hr
  exact isLoaded_of_fill hfill

/-! ### More answers -/

/-- A document is opened to the same tree when no file is open that was not open before. -/
theorem openText_yields_of_subset (hcaps : caps.ParsesFresh) {opened' : List Path}
    (hsub : opened' ⊆ opened) (h : (openText caps depth opened src).Yields n) :
    (openText caps depth opened' src).Yields n := by
  induction depth generalizing opened opened' src n with
  | zero => exact absurd h openText_zero_not_yields
  | succ depth ih =>
    obtain ⟨n₀, build, hb⟩ := exists_assembles_of_yields hcaps h
    obtain ⟨rs, hrs, rfl⟩ := hb.yields.mp h
    refine hb.yields.mpr ⟨rs, hrs.imp fun r₀ r hr ↦ ?_, rfl⟩
    cases ht : r₀.asTemplate with
    | false => exact (fill_raw_yields ht).mpr ((fill_raw_yields ht).mp hr)
    | true =>
      obtain ⟨target, raw, d, hopens, rfl⟩ := (fill_template_yields ht).mp hr
      have hsub' : opened' ++ [target] ⊆ opened ++ [target] := List.append_subset.mpr
        ⟨List.subset_append_of_subset_left _ hsub, List.subset_append_right _ _⟩
      exact (fill_template_yields ht).mpr ⟨target, raw, d,
        ⟨hopens.resolve, fun p hp ↦ hopens.apart p (hsub hp), hopens.read,
          ih hsub' hopens.document⟩, rfl⟩

theorem fill_le {openDocument openDocument' : Opener}
    (h : ∀ opened text file, (openDocument opened text file).Le (openDocument' opened text file))
    (r : Dependency) : (fill caps openDocument opened r).Le (fill caps openDocument' opened r) := by
  refine Load.Le.bind (.mapError (.bind (.refl _) fun target ↦ ?_) _) fun _ ↦ .refl _
  cases r.asTemplate with
  | false => exact .refl _
  | true =>
    exact .bind (.refl _) fun _ ↦ .bind (.refl _) fun raw ↦ .bind (h _ _ _) fun _ ↦ .refl _

/-- A deeper bound changes no answer. -/
theorem openText_le (hcaps : caps.ParsesFresh) {depth' : Nat} (hle : depth ≤ depth')
    (opened : List Path) (src : Source) :
    (openText caps depth opened src).Le (openText caps depth' opened src) := by
  induction depth generalizing depth' opened src with
  | zero =>
    intro _ h
    cases h
  | succ depth ih =>
    obtain ⟨depth', rfl⟩ := Nat.exists_eq_add_of_le' hle
    change (openText caps (depth + 1) opened src).Le (openText caps (depth' + depth + 1) opened src)
    rcases openText_cases hcaps src with ⟨e, -, herror⟩ | ⟨n₀, build, hb⟩
    · rw [herror, herror]
      exact .refl _
    · rw [hb.openText_eq, hb.openText_eq]
      exact .bind (.mapM (fill_le fun _ _ _ ↦ ih (Nat.le_add_left _ _) _ _) _) fun _ ↦ .refl _

end Templating
