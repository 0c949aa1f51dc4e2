import Templating.Files.Memory
import Templating.Proofs.Loading.Composition

/-!
# The files that loading reads

Loading reads the file of each reference once, in document order; a reference comes before those of
its own document, and these before the references in the content of an include site
(`openText_reads`). What a fetch puts in place is loaded, so a walk that goes on into it, and a walk
that comes along once more with any files open, finds nothing to do (`fetch_bind_populateDocument`,
`Loads.populate_document_eq_pure`).
-/

namespace Templating

open Node Dependency

/-! ### Order of reading -/

section

variable {caps : Capabilities} {depth : Nat} {opened : List Path} {src : Source} {n : Node}
  {log : List Path}

/-- The file of a template is read before what its document needs. -/
theorem exists_of_fetch_template {openDocument : Opener} {file f : Reference} {d : Option Node}
    {site : Position}
    (h : (fetch caps openDocument opened true file site).YieldsReading log (f, d)) :
    ∃ target raw nested n, log = target :: nested ∧ f.target = some target ∧ d = some n ∧
      (openDocument (opened ++ [target]) (Utf8.decodeLossy raw) target).YieldsReading nested n := by
  simp only [fetch, Load.bind_yieldsReading, Load.mapError_yieldsReading,
    Load.ofExcept_yieldsReading, Load.read_yieldsReading, Load.pure_yieldsReading, if_true,
    Prod.mk.injEq] at h
  obtain ⟨_, target, _, ⟨rfl, -⟩, ⟨_, _, _, ⟨rfl, -⟩, ⟨_, raw, _, ⟨rfl, -⟩, ⟨nested, n, _, hn,
    ⟨_, _, _, ⟨rfl, rfl⟩, ⟨rfl, rfl, rfl⟩, rfl⟩, rfl⟩, rfl⟩, rfl⟩, rfl⟩ := h
  exact ⟨target, raw, nested, n, by simp, rfl, rfl, hn⟩

/-- Nothing is read for a file that is no template but the file. -/
theorem exists_of_fetch_raw {openDocument : Opener} {file f : Reference} {d : Option Node}
    {site : Position}
    (h : (fetch caps openDocument opened false file site).YieldsReading log (f, d)) :
    ∃ target, log = [target] ∧ f.target = some target ∧ d = none := by
  simp only [fetch, Load.bind_yieldsReading, Load.mapError_yieldsReading,
    Load.ofExcept_yieldsReading, Load.read_yieldsReading, Load.pure_yieldsReading,
    Bool.false_eq_true, if_false, Prod.mk.injEq] at h
  obtain ⟨_, target, _, ⟨rfl, -⟩, ⟨_, _, _, ⟨rfl, -⟩, ⟨_, _, _, ⟨rfl, rfl⟩, ⟨rfl, rfl, rfl⟩, rfl⟩,
    rfl⟩, rfl⟩ := h
  exact ⟨target, by simp, rfl, rfl⟩

/-- A fetch reads the file of its reference and then what the document of that file needs. -/
theorem reads_of_fill {openDocument : Opener}
    (hopen : ∀ opened text file log d, (openDocument opened text file).YieldsReading log d →
      log.map some = d.dependencies.map (·.file.target)) {r₀ r : Dependency}
    (h : (fill caps openDocument opened r₀).YieldsReading log r) :
    log.map some = r.unfolded.map (·.file.target) := by
  obtain ⟨asTemplate, file, document, site⟩ := r₀
  obtain ⟨_, ⟨f, d⟩, _, hfetch, hr, rfl⟩ := Load.bind_yieldsReading.mp h
  obtain ⟨rfl, rfl⟩ := Load.pure_yieldsReading.mp hr
  cases asTemplate with
  | false =>
    obtain ⟨target, rfl, htarget, rfl⟩ := exists_of_fetch_raw hfetch
    simp [unfolded, htarget]
  | true =>
    obtain ⟨target, raw, nested, n, rfl, htarget, rfl, hn⟩ := exists_of_fetch_template hfetch
    simp [unfolded, htarget, hopen _ _ _ _ _ hn]

/-- Opening a document reads the files of its references, each once and in document order. -/
theorem openText_reads (hcaps : caps.ParsesFresh)
    (h : (openText caps depth opened src).YieldsReading log n) :
    log.map some = n.dependencies.map (·.file.target) := by
  induction depth generalizing opened src log n with
  | zero => exact absurd h Load.none_not_yieldsReading
  | succ depth ih =>
    obtain ⟨n₀, build, hb⟩ := exists_assembles_of_yields hcaps h.yields
    rw [hb.openText_eq] at h
    obtain ⟨log, rs, _, hrs, hn, rfl⟩ := Load.bind_yieldsReading.mp h
    obtain ⟨rfl, rfl⟩ := Load.pure_yieldsReading.mp hn
    rw [List.append_nil, hb.dependencies (Load.mapM_yields.mp hrs.yields), List.map_flatMap]
    exact Load.map_of_mapM_yieldsReading
      (fun _ _ _ hr ↦ reads_of_fill (fun _ _ _ _ _ hd ↦ ih hd) hr) hrs

/-- Loading a file reads that file first. -/
theorem loadFile_reads (hcaps : caps.ParsesFresh) {p : Path}
    (h : (loadFile caps depth p).YieldsReading log n) :
    log.map some = some p :: n.dependencies.map (·.file.target) := by
  obtain ⟨_, raw, log, hraw, hsource, rfl⟩ := Load.bind_yieldsReading.mp h
  obtain ⟨rfl, -⟩ := Load.read_yieldsReading.mp hraw
  rw [List.singleton_append, List.map_cons, openText_reads hcaps hsource]

/-! ### Walking once more -/

/-- Going on into the document that a fetch has just opened changes nothing and reads nothing. -/
theorem fetch_bind_populateDocument (hcaps : caps.ParsesFresh) (asTemplate : Bool)
    (file : Reference) (site : Position) (caps' : Capabilities) (openDocument : Opener)
    (opened' : List Path) :
    (do
      let (f, d) ← fetch caps (caps.opener depth) opened asTemplate file site
      let d ← populateDocument caps' openDocument opened' d
      pure (f, d)) = fetch caps (caps.opener depth) opened asTemplate file site := by
  conv => rhs; rw [← bind_pure (fetch caps (caps.opener depth) opened asTemplate file site)]
  refine Load.bind_congr_of_yields fun ⟨f, d⟩ hfetch ↦ ?_
  suffices hd : populateDocument caps' openDocument opened' d = pure d by simp [hd]
  apply populateDocument_eq_pure
  cases asTemplate with
  | false =>
    obtain ⟨_, _, -, -, -, rfl⟩ := fetch_raw_yields.mp hfetch
    rfl
  | true =>
    obtain ⟨_, _, d, -, -, -, hd, -, rfl⟩ := fetch_template_yields.mp hfetch
    exact populateAll_eq_pure (by simpa using isLoaded_of_openText hcaps hd)

/-- Walking through a document inside a loaded one leaves it as it is, whatever is open. -/
theorem Loads.populate_document_eq_pure (hcaps : caps.ParsesFresh) (h : Loads caps depth n)
    {r : Dependency} (hr : r ∈ n.dependencies) {d : Node} (hd : r.document = some d)
    (caps' : Capabilities) (openDocument : Opener) :
    populate caps' openDocument opened d = pure d := by
  obtain ⟨_, _, h⟩ := h.exists_openText
  obtain ⟨depth', opened', r₀, -, -, -, hfill⟩ := exists_fill_of_mem_dependencies hcaps h hr
  cases ht : r₀.asTemplate with
  | false =>
    obtain ⟨_, _, -, -, rfl⟩ := (fill_raw_yields ht).mp hfill
    cases hd
  | true =>
    obtain ⟨_, _, _, hopens, rfl⟩ := (fill_template_yields ht).mp hfill
    cases hd
    exact Node.populate_eq_pure (isLoaded_of_openText hcaps hopens.document)

end

/-- Loading a file with any resolution of references reads the file and then the files of all
references in the result, each once and in document order. Loading the result again, with whatever
capabilities, reads nothing and gives the result; the same holds of every document inside it and of
any files that are open. -/
theorem loading_reads_once (read : Path → Except String (List UInt8)) (base : Option Path)
    (resolve : Option Path → String → Option Path → Except TemplateError Path) {depth : Nat}
    {p : Path} {log : List Path} {n : Node}
    (h : loadFile { Capabilities.standard read base with resolve } depth p =
      some ⟨log, .ok n⟩) :
    log.map some = some p :: n.dependencies.map (·.file.target) ∧
      (∀ caps depth', loadDocument caps depth' n = some ⟨[], .ok n⟩) ∧
      ∀ r ∈ n.dependencies, ∀ d ∈ r.document, ∀ caps openDocument opened,
        populate caps openDocument opened d = some ⟨[], .ok d⟩ := by
  have hcaps : Capabilities.ParsesFresh { Capabilities.standard read base with resolve } :=
    Capabilities.parsesFresh_standard read base
  have hn : Loads { Capabilities.standard read base with resolve } depth n := .inr ⟨p, log, h⟩
  exact ⟨loadFile_reads hcaps h, fun caps depth' ↦ hn.populate_eq_pure hcaps caps _,
    fun r hr d hd caps openDocument opened ↦ hn.populate_document_eq_pure hcaps hr hd caps _⟩

/-- A page that inherits from one file and includes another with content of its own. -/
def letterFiles : MemoryFiles := ⟨[
  (⟨"/letter"⟩, Utf8.encode ("extends \"layout.tmpl\" block body \x7b " ++
    "include \"card.tmpl\" \x7b include \"note.txt\" \x7d include \"note.txt\" \x7d")),
  (⟨"/lib/layout.tmpl"⟩, Utf8.encode "include \"head.txt\" block body \x7b \x7d"),
  (⟨"/lib/card.tmpl"⟩, Utf8.encode "include \"head.txt\" yield"),
  (⟨"/lib/head.txt"⟩, Utf8.encode "head"),
  (⟨"/lib/note.txt"⟩, Utf8.encode "note")]⟩

/-- All references lead into one directory. -/
def libraryResolve (_ : Option Path) (written : String) (_ : Option Path) :
    Except TemplateError Path :=
  .ok ⟨"/lib/" ++ written⟩

theorem loading_reads_once_letterFiles :
    ∃ log n, loadFile { Capabilities.standard letterFiles.read none with
        resolve := libraryResolve } 3 ⟨"/letter"⟩ = some ⟨log, .ok n⟩ ∧
      log = [⟨"/letter"⟩, ⟨"/lib/layout.tmpl"⟩, ⟨"/lib/head.txt"⟩, ⟨"/lib/card.tmpl"⟩,
        ⟨"/lib/head.txt"⟩, ⟨"/lib/note.txt"⟩, ⟨"/lib/note.txt"⟩] ∧
      log.map some = some ⟨"/letter"⟩ :: n.dependencies.map (·.file.target) ∧
      (∀ caps depth, loadDocument caps depth n = some ⟨[], .ok n⟩) ∧
      ∀ r ∈ n.dependencies, ∀ d ∈ r.document, ∀ caps openDocument opened,
        populate caps openDocument opened d = some ⟨[], .ok d⟩ := by
  obtain ⟨log, n, h, htargets⟩ := Logged.exists_of_any
    (x := loadFile { Capabilities.standard letterFiles.read none with
      resolve := libraryResolve } 3 ⟨"/letter"⟩)
    (P := fun n ↦ n.dependencies.map (·.file.target) = [⟨"/lib/layout.tmpl"⟩, ⟨"/lib/head.txt"⟩,
      ⟨"/lib/card.tmpl"⟩, ⟨"/lib/head.txt"⟩, ⟨"/lib/note.txt"⟩, ⟨"/lib/note.txt"⟩].map some)
    (by decide +kernel)
  have hreads := loading_reads_once letterFiles.read none libraryResolve h
  refine ⟨log, n, h, ?_, hreads⟩
  have hlog := hreads.1
  rw [htargets, ← List.map_cons] at hlog
  exact List.map_injective_iff.mpr (fun _ _ ↦ Option.some.inj) hlog

end Templating
