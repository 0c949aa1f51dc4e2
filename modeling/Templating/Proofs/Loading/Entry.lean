import Templating.Compilation
import Templating.Proofs.Grammar.SameTokens
import Templating.Proofs.Loading.Nesting
import Templating.Proofs.Path.Spelling

/-!
# Two ways into a document

A file is loaded with its own path among the open files, a document that is already read with none.
This makes no difference to what is loaded (`openText_yields_entry`): a reference back to the file
would be opened once more if the file were not open, and lead to itself from there.
-/

namespace Templating

open Node Dependency Relation

variable {caps : Capabilities} {depth : Nat} {opened : List Path} {src : Source} {n : Node}

/-- A document is opened to the same tree when a file is open besides that no reference in the
tree leads to. -/
theorem openText_yields_of_apart (hcaps : caps.ParsesFresh) {p : Path} {opened' : List Path}
    (hsub : opened' ⊆ p :: opened) (h : (openText caps depth opened src).Yields n)
    (hp : ∀ r ∈ n.dependencies, r.asTemplate → ∀ t ∈ r.file.target, p.Apart t) :
    (openText caps depth opened' src).Yields n := by
  induction depth generalizing opened opened' src n with
  | zero => exact absurd h openText_zero_not_yields
  | succ depth ih =>
    obtain ⟨n₀, build, hb⟩ := exists_assembles_of_yields hcaps h
    obtain ⟨rs, hrs, rfl⟩ := hb.yields.mp h
    rw [hb.dependencies hrs, List.forall_mem_flatMap] at hp
    have hboth := ((List.forall₂_and_left _ _).mpr ⟨hp, hrs.flip⟩).flip
    refine hb.yields.mpr ⟨rs, hboth.imp ?_, rfl⟩
    rintro r₀ r ⟨hr, hfill⟩
    rw [unfolded, List.forall_mem_cons] at hr
    cases ht : r₀.asTemplate with
    | false => exact (fill_raw_yields ht).mpr ((fill_raw_yields ht).mp hfill)
    | true =>
      obtain ⟨target, raw, d, hopens, rfl⟩ := (fill_template_yields ht).mp hfill
      have hsub' : opened' ++ [target] ⊆ p :: (opened ++ [target]) := List.append_subset.mpr
        ⟨List.Subset.trans hsub (List.cons_subset_cons _ (List.subset_append_left _ _)), by simp⟩
      refine (fill_template_yields ht).mpr ⟨target, raw, d, ⟨hopens.resolve, ?_, hopens.read,
        ih hsub' hopens.document (by simpa [loadedFrom] using hr.2)⟩, rfl⟩
      intro q hq
      rcases List.mem_cons.mp (hsub hq) with rfl | hq
      · exact hr.1 ht target rfl
      · exact hopens.apart q hq

/-- A reference to a template in an opened document is the end of references that begin in the
file of the document. -/
theorem transGen_refersTo (hcaps : caps.ParsesFresh) {p : Path} {raw : List UInt8}
    (hraw : caps.read p = .ok raw)
    (h : (openText caps depth opened ⟨Utf8.decodeLossy raw, some p⟩).Yields n) {r : Dependency}
    (hr : r ∈ n.dependencies) (ht : r.asTemplate) {t : Path} (htarget : r.file.target = some t) :
    TransGen (RefersTo caps) p t := by
  induction depth generalizing opened p raw n with
  | zero => exact absurd h openText_zero_not_yields
  | succ depth ih =>
    obtain ⟨n₀, build, hb⟩ := exists_assembles_of_yields hcaps h
    obtain ⟨rs, hrs, rfl⟩ := hb.yields.mp h
    rw [hb.dependencies hrs, List.mem_flatMap] at hr
    obtain ⟨s, hs, hr⟩ := hr
    obtain ⟨s₀, hs₀, hfill⟩ := exists_of_mem_forall₂ hrs hs
    cases hs₀t : s₀.asTemplate with
    | false =>
      obtain ⟨_, _, -, -, rfl⟩ := (fill_raw_yields hs₀t).mp hfill
      obtain rfl : r = _ := by simpa [unfolded, loadedFrom] using hr
      cases hs₀t.symm.trans ht
    | true =>
      obtain ⟨target, raw', d, hopens, rfl⟩ := (fill_template_yields hs₀t).mp hfill
      have hsource : s₀.file.source = some p := by
        rw [(hb.fresh s₀ hs₀).1]
        rfl
      have hfirst : RefersTo caps p target :=
        ⟨raw, n₀, hraw, hb.reads, s₀, hs₀, hs₀t, hsource ▸ hopens.resolve⟩
      rcases List.mem_cons.mp hr with rfl | hr
      · cases htarget
        exact .single hfirst
      · exact .head hfirst (ih hopens.read hopens.document (by simpa [loadedFrom] using hr))

section

variable {read : Path → Except String (List UInt8)} {base : Option Path}

theorem reads_standard {src : Source} {n : Node} :
    (Capabilities.standard read base).Reads src n ↔ src.document = .ok n := by
  change (∃ ls, src.tokens = .ok ls ∧ src.documentOf ls = .ok n) ↔ _
  unfold Source.document
  cases src.tokens <;> simp

/-- A file refers to the same files under all spellings of its path. -/
theorem RefersTo.of_same (hread : ∀ p q : Path, p.same q → read p = read q) {p p' q : Path}
    (h : RefersTo (.standard read base) p q) (hsame : p.same p') :
    RefersTo (.standard read base) p' q := by
  obtain ⟨raw, n₀, hraw, hreads, r, hr, ht, hq⟩ := h
  obtain ⟨m₀, hm₀, hreferences⟩ :=
    Source.exists_document_of_file (reads_standard.mp hreads) (some p')
  have hwritten : r.written ∈ references [m₀] := by
    rw [← hreferences, references, dependenciesAll_singleton]
    exact List.mem_map_of_mem hr
  rw [references, dependenciesAll_singleton] at hwritten
  obtain ⟨r', hr', hsame'⟩ := List.mem_map.mp hwritten
  have htemplate : r'.asTemplate = r.asTemplate := congrArg Prod.fst hsame'
  have hpath : r'.file.path = r.file.path := congrArg Prod.snd hsame'
  refine ⟨raw, m₀, (hread p p' hsame).symm.trans hraw, reads_standard.mpr hm₀, r', hr',
    htemplate.trans ht, ?_⟩
  rw [standard_resolve] at hq ⊢
  rw [hpath, ← resolveReference_congr hsame]
  exact hq

/-- No reference in a document leads back to the file of the document, whether or not that file
was open when it was read. -/
theorem apart_of_mem_dependencies (hread : ∀ p q : Path, p.same q → read p = read q) {p : Path}
    {raw : List UInt8} (hraw : read p = .ok raw)
    (h : (openText (.standard read base) depth opened ⟨Utf8.decodeLossy raw, some p⟩).Yields n)
    {r : Dependency} (hr : r ∈ n.dependencies) (ht : r.asTemplate) {t : Path}
    (htarget : r.file.target = some t) : p.Apart t := by
  have hcaps := Capabilities.parsesFresh_standard read base
  by_contra hsame
  replace hsame : p.same t := by simpa [Path.Apart] using hsame
  -- the references that lead from `p` to `t` lead from `t` to `t` as well
  obtain ⟨q, hfirst, hrest⟩ := TransGen.head'_iff.mp (transGen_refersTo hcaps hraw h hr ht htarget)
  have hcircle : TransGen (RefersTo (.standard read base)) t t :=
    TransGen.head'_iff.mpr ⟨q, hfirst.of_same hread hsame, hrest⟩
  obtain ⟨depth', opened', r₀, -, -, -, hfill⟩ := exists_fill_of_mem_dependencies hcaps h hr
  rw [(fill_fits hfill).1] at ht
  obtain ⟨target, raw', d, hopens, rfl⟩ := (fill_template_yields ht).mp hfill
  cases htarget
  exact loadFile_not_yields_of_circle hcaps .refl hcircle (Path.same_iff.mpr rfl)
    (loadFile_yields_of_opens hcaps hopens (Nat.le_refl _))

/-- Opening the entry document with its own file open makes no difference. -/
theorem openText_yields_entry (hread : ∀ p q : Path, p.same q → read p = read q) {p : Path}
    {raw : List UInt8} (hraw : read p = .ok raw) :
    (openText (.standard read base) depth [p] ⟨Utf8.decodeLossy raw, some p⟩).Yields n ↔
      (openText (.standard read base) depth [] ⟨Utf8.decodeLossy raw, some p⟩).Yields n := by
  have hcaps := Capabilities.parsesFresh_standard read base
  constructor
  · exact openText_yields_of_subset hcaps (List.nil_subset _)
  · intro h
    exact openText_yields_of_apart hcaps (List.Subset.refl _) h fun r hr ht t htarget ↦
      apart_of_mem_dependencies hread hraw h hr ht htarget

/-- Opening a text loads the document that it is read as. -/
theorem openText_of_document (h : src.document = .ok n) :
    openText (.standard read base) (depth + 1) [] src =
      loadDocument (.standard read base) depth n := by
  obtain ⟨ls, hls, hn⟩ := reads_standard.mpr h
  rw [openText, hls, Load.ofExcept_ok, pure_bind, hn, Load.ofExcept_ok, pure_bind]
  rfl

theorem loadFile_yields_iff_loadDocument (hread : ∀ p q : Path, p.same q → read p = read q)
    {p : Path} {d : Node} :
    (loadFile (.standard read base) (depth + 1) p).Yields d ↔
      ∃ raw n, read p = .ok raw ∧ Source.document ⟨Utf8.decodeLossy raw, some p⟩ = .ok n ∧
        (loadDocument (.standard read base) depth n).Yields d := by
  rw [loadFile_yields]
  constructor
  · rintro ⟨raw, hraw, h⟩
    obtain ⟨n, _, hb⟩ :=
      exists_assembles_of_yields (Capabilities.parsesFresh_standard read base) h
    have hn := reads_standard.mp hb.reads
    exact ⟨raw, n, hraw, hn, openText_of_document hn ▸ (openText_yields_entry hread hraw).mp h⟩
  · rintro ⟨raw, n, hraw, hn, h⟩
    exact ⟨raw, hraw, (openText_yields_entry hread hraw).mpr (openText_of_document hn ▸ h)⟩

end

/-- A compilation succeeds if what is loaded can be rendered and linked. -/
theorem exists_finishLoad_eq_ok {filters : FilterSet} {x : Load Node} {l : Linked} :
    (∃ log, finishLoad filters x = some ⟨log, .ok l⟩) ↔
      ∃ n, x.Yields n ∧ (finish filters n).result = .ok l := by
  constructor
  · rintro ⟨log, h⟩
    obtain ⟨⟨reads, result⟩, rfl, hy⟩ := Option.map_eq_some_iff.mp h
    have hresult : ((⟨reads, result⟩ : Logged Path Node).relabel Deed.read >>=
        finish filters).result = .ok l := congrArg Logged.result hy
    obtain ⟨n, hn, hfinish⟩ := Logged.bind_result_eq_ok.mp hresult
    exact ⟨n, Load.some_yields.mpr hn, hfinish⟩
  · rintro ⟨n, ⟨reads, rfl⟩, h⟩
    refine ⟨reads.map Deed.read ++ (finish filters n).log, ?_⟩
    rw [← h]
    rfl

/-- If the content of a file does not depend on how its path is spelled, a file is loaded, and
compiled, exactly if it can be read, its text is a document, and that document is loaded, or
compiled, by itself; the results are the same. -/
theorem entries_agree {read : Path → Except String (List UInt8)}
    (hread : ∀ p q : Path, p.same q → read p = read q) (base : Option Path) (depth : Nat)
    (p : Path) :
    (∀ d, (loadFile (.standard read base) (depth + 1) p).Yields d ↔
        ∃ raw n, read p = .ok raw ∧ Source.document ⟨Utf8.decodeLossy raw, some p⟩ = .ok n ∧
          (loadDocument (.standard read base) depth n).Yields d) ∧
      ∀ filters l,
        (∃ log, compileFile (.standard read base) filters (depth + 1) p = some ⟨log, .ok l⟩) ↔
          ∃ raw n, read p = .ok raw ∧ Source.document ⟨Utf8.decodeLossy raw, some p⟩ = .ok n ∧
            ∃ log, compileDocument (.standard read base) filters depth n = some ⟨log, .ok l⟩ := by
  refine ⟨fun d ↦ loadFile_yields_iff_loadDocument hread, fun filters l ↦ ?_⟩
  simp only [compileFile, compileDocument, exists_finishLoad_eq_ok,
    loadFile_yields_iff_loadDocument hread]
  constructor
  · rintro ⟨d, ⟨raw, n, hraw, hn, hd⟩, hl⟩
    exact ⟨raw, n, hraw, hn, d, hd, hl⟩
  · rintro ⟨raw, n, hraw, hn, d, hd, hl⟩
    exact ⟨d, ⟨raw, n, hraw, hn, hd⟩, hl⟩

/-- Files in memory are found under all spellings of their paths. -/
theorem MemoryFiles.read_congr (fs : MemoryFiles) {p q : Path} (h : p.same q) :
    fs.read p = fs.read q := by
  simp only [read, get?, Path.same, Path.same_iff.mp h]

theorem entries_agree_siteFiles :
    ∃ d, (loadFile (.standard siteFiles.read none) 3 ⟨"//home.tmpl"⟩).Yields d ∧
      ∃ raw n, siteFiles.read ⟨"//home.tmpl"⟩ = .ok raw ∧
        Source.document ⟨Utf8.decodeLossy raw, some ⟨"//home.tmpl"⟩⟩ = .ok n ∧
        (loadDocument (.standard siteFiles.read none) 2 n).Yields d := by
  obtain ⟨log, d, hd, -⟩ := Logged.exists_of_any
    (x := loadFile (.standard siteFiles.read none) 3 ⟨"//home.tmpl"⟩) (P := fun _ ↦ True)
    (by decide +kernel)
  exact ⟨d, ⟨log, hd⟩,
    ((entries_agree (fun _ _ ↦ siteFiles.read_congr) none 2 ⟨"//home.tmpl"⟩).1 d).mp ⟨log, hd⟩⟩

end Templating
