import Templating.Proofs.Grammar.Written
import Templating.Proofs.Path.Extension

/-!
# Included templates

Whether an included file is a template is decided when the include is read, by the extension of
the path as it is written; the file is found later, by the path without the blanks around it. The
two agree but for blanks at the end of a path, for blanks in front of one that is only an
extension, and for paths that do not end in a name, such as one that ends in `..`
(`Source.asTemplate_iff_extension`).
-/

namespace Templating

open Grammar Node

namespace Text

/-- The first character is a blank. -/
def beginsBlank (s : String) : Bool := s.toList.head?.any isBlank

/-- The last character is a blank. -/
def endsBlank (s : String) : Bool := s.toList.getLast?.any isBlank

/-- Without a blank at the end, a text is trimmed at the front only. -/
theorem takeWhile_append_trim {s : String} (h : endsBlank s = false) :
    s.toList.takeWhile isBlank ++ (trim s).toList = s.toList := by
  have hdrop : (s.toList.dropWhile isBlank).reverse.dropWhile isBlank =
      (s.toList.dropWhile isBlank).reverse := by
    cases hrest : (s.toList.dropWhile isBlank).reverse with
    | nil => rfl
    | cons c rest =>
      have hlast : s.toList.getLast? = some c := by
        have hne : s.toList.dropWhile isBlank ≠ [] := by
          intro hnil
          rw [hnil] at hrest
          cases hrest
        rw [← List.takeWhile_append_dropWhile (p := isBlank) (l := s.toList),
          List.getLast?_append_of_ne_nil _ hne, ← List.head?_reverse, hrest, List.head?_cons]
      refine List.dropWhile_cons_of_neg ?_
      simpa [endsBlank, hlast] using h
  rw [trim, String.toList_ofList, trimChars, hdrop, List.reverse_reverse,
    List.takeWhile_append_dropWhile]

theorem takeWhile_eq_nil_iff {s : String} :
    s.toList.takeWhile isBlank = [] ↔ beginsBlank s = false := by
  unfold beginsBlank
  cases s.toList with
  | nil => simp
  | cons c cs => cases hc : isBlank c <;> simp [hc]

theorem plain_of_isBlank {c : Char} (h : isBlank c) : c ≠ '/' ∧ c ≠ '.' ∧ c ≠ 'l' := by
  refine ⟨?_, ?_, ?_⟩ <;>
  · rintro rfl
    exact absurd h (by decide)

end Text

/-- How a written path is read, told by the path without the blanks around it. -/
theorem Grammar.namesTemplate_iff {path : String} :
    namesTemplate path ↔ Text.endsBlank path = false ∧
      (Path.extension? ⟨Text.trim path⟩ = some templateExtension ∨
        Text.beginsBlank path ∧
          Path.components ⟨Text.trim path⟩ = [.name ("." ++ templateExtension)]) := by
  have hnames : namesTemplate path ↔ Path.extension? ⟨path⟩ = some templateExtension := by
    simp [namesTemplate]
  rw [hnames]
  cases hend : Text.endsBlank path with
  | true =>
    obtain ⟨c, hlast, hc⟩ := (Option.any_eq_true ..).mp hend
    obtain ⟨hslash, hdot, hl⟩ := Text.plain_of_isBlank hc
    simp only [Bool.true_eq_false, false_and, iff_false]
    intro h
    have hlast := Path.getLast?_of_extension? (p := ⟨path⟩) hlast hslash hdot h
    exact hl (Option.some.inj hlast).symm
  | false =>
    have htrim := Text.takeWhile_append_trim hend
    cases hbegin : Text.beginsBlank path with
    | true =>
      have hne : path.toList.takeWhile Text.isBlank ≠ [] := by
        intro hnil
        rw [Text.takeWhile_eq_nil_iff.mp hnil] at hbegin
        cases hbegin
      have hblank : ∀ c ∈ path.toList.takeWhile Text.isBlank, c ≠ '/' ∧ c ≠ '.' := by
        intro c hc
        have hplain := Text.plain_of_isBlank (List.mem_takeWhile_imp hc)
        exact ⟨hplain.1, hplain.2.1⟩
      have hext : templateExtension.toList ≠ [] ∧ '.' ∉ templateExtension.toList := by decide
      have happend :=
        Path.extension?_append_eq_some_iff (Text.trim path).toList hne hblank hext.1 hext.2
      rw [htrim, String.ofList_toList, String.ofList_toList] at happend
      simpa using happend
    | false =>
      rw [Text.takeWhile_eq_nil_iff.mpr hbegin, List.nil_append, String.toList_inj] at htrim
      simp [htrim]

namespace Node

/-- The reference of an include without filters. -/
def plainInclude? : Node → Option Dependency
  | .includes f d _ p => some ⟨true, f, d, p⟩
  | .includesRaw f d [] p => some ⟨false, f, d, p⟩
  | _ => none

/-- A plain include reads its file as a template if the written path names one. -/
def IsChosen (n : Node) : Prop :=
  ∀ r ∈ n.plainInclude?, r.asTemplate = namesTemplate r.file.path

theorem isChosen_of_eq_none {n : Node} (h : n.plainInclude? = none) : n.IsChosen := by
  rw [IsChosen, h]
  nofun

end Node

theorem Written.isChosen {file : Option Path} {ns : List Node} (h : Written file ns) :
    ∀ n ∈ listingAll ns, n.IsChosen := by
  intro n hn
  obtain ⟨rest, hwritten⟩ := h.exists_of_mem hn
  cases hwritten with
  | includes htemplate | includesWith htemplate =>
    rintro _ ⟨⟩
    exact htemplate.symm
  | includesRaw hraw =>
    intro r hr
    unfold plainInclude? at hr
    split at hr
    · next heq => cases heq
    · next heq =>
      cases heq
      cases hr
      rw [List.isEmpty_nil, Bool.true_and] at hraw
      exact hraw.symm
    · cases hr
  | _ => exact isChosen_of_eq_none rfl

/-- An include without filters reads its file as a template exactly if the file has the extension
of templates, unless the path ends in a blank or in no name and leads to a template all the same,
or is only an extension behind blanks. -/
theorem Source.asTemplate_iff_extension {src : Source} {n m : Node} (h : src.document = .ok n)
    (hm : m ∈ n.listing) {r : Dependency} (hr : m.plainInclude? = some r)
    {base source : Option Path} {f : Path}
    (hf : resolveReference base r.file.path source = .ok f) :
    (r.asTemplate ↔ f.extension? = some templateExtension) ↔
      ¬ ((Text.endsBlank r.file.path ∨ Path.fileName? ⟨Text.trim r.file.path⟩ = none) ∧
          f.extension? = some templateExtension) ∧
        ¬ (Text.beginsBlank r.file.path ∧ Text.endsBlank r.file.path = false ∧
          Path.components ⟨Text.trim r.file.path⟩ = [.name ("." ++ templateExtension)]) := by
  obtain ⟨ns, rfl, hw⟩ := Source.written_of_document h
  have hchosen : r.asTemplate = namesTemplate r.file.path := by
    rw [listing, List.mem_cons] at hm
    rcases hm with rfl | hm
    · cases hr
    · exact hw.isChosen m hm r hr
  rw [hchosen, namesTemplate_iff]
  generalize htrim : (⟨Text.trim r.file.path⟩ : Path) = p at *
  have hbare : p.components = [.name ("." ++ templateExtension)] →
      p.fileName? = some ("." ++ templateExtension) := by
    intro hp
    rw [Path.fileName?, hp]
    rfl
  cases hname : p.fileName? with
  | none =>
    have hextension : p.extension? = none := by rw [Path.extension?, hname]; rfl
    have hp : p.components ≠ [.name ("." ++ templateExtension)] := by
      intro hp
      rw [hbare hp] at hname
      cases hname
    simp [hextension, hp]
  | some s =>
    have hextension : f.extension? = p.extension? := by
      subst htrim
      exact extension?_of_resolveReference hf hname
    have hp : p.components = [.name ("." ++ templateExtension)] →
        p.extension? ≠ some templateExtension := by
      intro hp
      rw [Path.extension?, hbare hp]
      decide
    rw [hextension]
    grind

/-- The paths of the plain includes of a document, each with whether it is read as a template. -/
def Node.plainPaths (n : Node) : List (Bool × String) :=
  (n.listing.filterMap plainInclude?).map fun r ↦ (r.asTemplate, r.file.path)

theorem Source.exists_plainInclude {src : Source} {paths : List (Bool × String)}
    (h : src.document.toOption.map plainPaths = some paths) {x : Bool × String} (hx : x ∈ paths) :
    ∃ n, src.document = .ok n ∧ ∃ m ∈ n.listing, ∃ r, m.plainInclude? = some r ∧
      (r.asTemplate, r.file.path) = x := by
  cases hn : src.document with
  | error e =>
    rw [hn] at h
    cases h
  | ok n =>
    rw [hn] at h
    obtain rfl : n.plainPaths = paths := Option.some.inj h
    obtain ⟨r, hr, he⟩ := List.mem_map.mp hx
    obtain ⟨m, hm, hr⟩ := List.mem_filterMap.mp hr
    exact ⟨n, rfl, m, hm, r, hr, he⟩

/-- A page with a navigation, a part and a table. -/
def tabledSource : Source :=
  ⟨"nav \x7b include \"../nav.tmpl\" \x7d include \"part.tmpl \" include \"table.csv\"",
    some ⟨"/site/page.tmpl"⟩⟩

theorem plainPaths_tabledSource : tabledSource.document.toOption.map plainPaths =
    some [(true, "../nav.tmpl"), (false, "part.tmpl "), (false, "table.csv")] := by
  decide +kernel

theorem Source.asTemplate_iff_extension_tabledSource :
    ∃ n, tabledSource.document = .ok n ∧ ∃ m ∈ n.listing, ∃ r, m.plainInclude? = some r ∧
      resolveReference none r.file.path tabledSource.file = .ok ⟨"/nav.tmpl"⟩ ∧
      (r.asTemplate ↔ Path.extension? ⟨"/nav.tmpl"⟩ = some templateExtension) := by
  obtain ⟨n, hn, m, hm, r, hr, he⟩ :=
    Source.exists_plainInclude plainPaths_tabledSource List.mem_cons_self
  have hpath : r.file.path = "../nav.tmpl" := (Prod.mk.inj he).2
  have hf : resolveReference none r.file.path tabledSource.file = .ok ⟨"/nav.tmpl"⟩ := by
    rw [hpath]
    decide +kernel
  refine ⟨n, hn, m, hm, r, hr, hf, (Source.asTemplate_iff_extension hn hm hr hf).mpr ?_⟩
  rw [hpath]
  decide +kernel

/-- A template is included as the text it is written in, for a blank behind its path. -/
theorem Source.exists_template_read_raw :
    ∃ n, tabledSource.document = .ok n ∧ ∃ m ∈ n.listing, ∃ r, m.plainInclude? = some r ∧
      resolveReference none r.file.path tabledSource.file = .ok ⟨"/site/part.tmpl"⟩ ∧
      Path.extension? ⟨"/site/part.tmpl"⟩ = some templateExtension ∧ r.asTemplate = false := by
  obtain ⟨n, hn, m, hm, r, hr, he⟩ :=
    Source.exists_plainInclude plainPaths_tabledSource (List.mem_cons_of_mem _ List.mem_cons_self)
  obtain ⟨htemplate, hpath⟩ := Prod.mk.inj he
  refine ⟨n, hn, m, hm, r, hr, ?_, by decide +kernel, htemplate⟩
  rw [hpath]
  decide +kernel

end Templating
