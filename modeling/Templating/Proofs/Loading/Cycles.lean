import Templating.Files.Memory
import Templating.Proofs.Loading.Nesting

/-!
# References in a circle

While documents are opened, the open files refer to each other one by one (`OpenFiles`). An error
about a circle therefore shows one: the files that it lists refer to each other, and the last is the
first again (`OpenFiles.circle_of_fails`). With the termination and the nesting of loadings this is
`loading_detects_circles`.
-/

namespace Templating

open Node Dependency

/-! ### Errors about circles -/

/-- The files that the error lists as a circle. -/
def TemplateError.circle? : TemplateError → Option (List Path)
  | .resolution _ (.circular chain) _ => some chain
  | _ => none

@[simp] theorem TemplateError.circle?_via (e : TemplateError) (site : Position) :
    (e.via site).circle? = e.circle? := by
  cases e with
  | resolution _ cause _ => cases cause <;> rfl
  | _ => rfl

theorem TemplateError.circle?_eq_some {e : TemplateError} {chain : List Path} :
    e.circle? = some chain ↔ ∃ written trace, e = .resolution written (.circular chain) trace := by
  constructor
  · intro h
    cases e with
    | resolution written cause trace =>
      cases cause with
      | circular chain' =>
        obtain rfl : chain' = chain := Option.some.inj h
        exact ⟨written, trace, rfl⟩
      | _ => cases h
    | _ => cases h
  · rintro ⟨written, trace, rfl⟩
    rfl

theorem circle?_of_resolveReference {base source : Option Path} {written : String}
    {e : TemplateError} (h : resolveReference base written source = .error e) :
    e.circle? = none := by
  rcases resolveReference_cases base written source with ⟨p, hp⟩ | ⟨cause, hcause, he⟩
  · rw [hp] at h
    cases h
  · rw [he, Except.error.injEq] at h
    subst h
    rcases hcause with rfl | rfl <;> rfl

/-- A text is refused for what it says, not for a circle. -/
theorem Capabilities.Refuses.circle?_eq_none {read : Path → Except String (List UInt8)}
    {base : Option Path} {src : Source} {e : TemplateError}
    (h : (Capabilities.standard read base).Refuses src e) : e.circle? = none := by
  obtain ⟨errors, rfl⟩ := h.exists_malformed
  rfl

/-- A circle is listed from the open file that is the target on. -/
theorem checkCircular_eq_error {opened : List Path} {written : String} {target : Path}
    {e : TemplateError} (h : checkCircular opened written target = .error e) :
    ∃ before first behind, opened = before ++ first :: behind ∧ first.same target ∧
      e.circle? = some (first :: (behind ++ [target])) := by
  unfold checkCircular at h
  cases hdrop : opened.dropWhile fun p ↦ !p.same target with
  | nil =>
    rw [hdrop] at h
    cases h
  | cons first behind =>
    rw [hdrop] at h
    cases h
    refine ⟨opened.takeWhile fun p ↦ !p.same target, first, behind, ?_, ?_, rfl⟩
    · rw [← hdrop, List.takeWhile_append_dropWhile]
    · have hfirst := List.head?_dropWhile_not (fun p ↦ !p.same target) opened
      rw [hdrop] at hfirst
      simpa using hfirst

section

variable {caps : Capabilities} {opened : List Path}

/-- Why a reference fails. -/
theorem fill_fails {openDocument : Opener} {r : Dependency} {e : TemplateError}
    (h : (fill caps openDocument opened r).Fails e) :
    ∃ e', e = e'.via r.site ∧
      (caps.resolve caps.base r.file.path r.file.source = .error e' ∨
        ∃ target, caps.resolve caps.base r.file.path r.file.source = .ok target ∧
          ((∃ reason, caps.read target = .error reason ∧ e' = .read target reason []) ∨
            r.asTemplate ∧ (checkCircular opened r.file.path target = .error e' ∨
              ∃ raw, caps.read target = .ok raw ∧
                (openDocument (opened ++ [target]) (Utf8.decodeLossy raw) target).Fails e'))) := by
  obtain ⟨asTemplate, file, document, site⟩ := r
  cases asTemplate with
  | false =>
    simp only [fill, fetch, Bool.false_eq_true, if_false, Load.bind_fails, Load.mapError_fails,
      Load.ofExcept_fails, Load.ofExcept_yields, Load.read_fails, Load.pure_fails, and_false,
      exists_false, or_false] at h
    obtain ⟨e', h, rfl⟩ := h
    refine ⟨e', rfl, ?_⟩
    rcases h with h | ⟨target, htarget, reason, hreason, rfl⟩
    · exact .inl h
    · exact .inr ⟨target, htarget, .inl ⟨reason, hreason, rfl⟩⟩
  | true =>
    simp only [fill, fetch, if_true, Load.bind_fails, Load.mapError_fails, Load.ofExcept_fails,
      Load.ofExcept_yields, Load.read_fails, Load.read_yields, Load.pure_fails, and_false,
      exists_false, or_false] at h
    obtain ⟨e', h, rfl⟩ := h
    refine ⟨e', rfl, ?_⟩
    rcases h with h | ⟨target, htarget, h | ⟨-, -, ⟨reason, hreason, rfl⟩ | ⟨raw, hraw, h⟩⟩⟩
    · exact .inl h
    · exact .inr ⟨target, htarget, .inr ⟨rfl, .inl h⟩⟩
    · exact .inr ⟨target, htarget, .inl ⟨reason, hreason, rfl⟩⟩
    · exact .inr ⟨target, htarget, .inr ⟨rfl, .inr ⟨raw, hraw, h⟩⟩⟩

end

/-! ### The open files -/

section

variable {read : Path → Except String (List UInt8)} {base : Option Path}

/-- The list leads from a file back to it, from each file to one that it refers to. Only the file
`entry`, which no reference was needed for, may be spelled in another way at the end. -/
def Circle (caps : Capabilities) (entry : Path) (chain : List Path) : Prop :=
  ∃ first mid last, chain = first :: (mid ++ [last]) ∧ first.same last ∧
    (first = last ∨ first = entry) ∧ chain.IsChain (RefersTo caps)

/-- The files that are open while `src` is read, from the outermost one to that of `src`. -/
structure OpenFiles (read : Path → Except String (List UInt8)) (base : Option Path)
    (entry : Path) (inner : List Path) (src : Source) : Prop where
  refers : (entry :: inner).IsChain (RefersTo (.standard read base))
  normalized : ∀ p ∈ inner, ∃ q : Path, p = q.normalize
  current : ∃ p raw, (entry :: inner).getLast? = some p ∧ read p = .ok raw ∧
    src = ⟨Utf8.decodeLossy raw, some p⟩

namespace OpenFiles

variable {entry : Path} {inner : List Path} {src : Source} {n₀ : Node} {r : Dependency}
  {target : Path}

/-- The file that is opened first. -/
theorem entry_only {raw : List UInt8} (hraw : read entry = .ok raw) :
    OpenFiles read base entry [] ⟨Utf8.decodeLossy raw, some entry⟩ where
  refers := List.isChain_singleton _
  normalized := List.forall_mem_nil _
  current := ⟨entry, raw, rfl, hraw, rfl⟩

/-- The current file refers to the templates that its text names. -/
theorem isChain_append (h : OpenFiles read base entry inner src)
    (hreads : (Capabilities.standard read base).Reads src n₀) (hr : r ∈ n₀.dependencies)
    (ht : r.asTemplate) (htarget : resolveReference base r.file.path src.file = .ok target) :
    (entry :: (inner ++ [target])).IsChain (RefersTo (.standard read base)) := by
  obtain ⟨p, raw, hp, hraw, rfl⟩ := h.current
  refine h.refers.append (List.isChain_singleton target) fun x hx y hy ↦ ?_
  rw [hp, Option.mem_some_iff] at hx
  rw [List.head?_cons, Option.mem_some_iff] at hy
  subst hx hy
  refine ⟨raw, n₀, hraw, hreads, r, hr, ht, ?_⟩
  rw [standard_resolve]
  exact htarget

theorem append (h : OpenFiles read base entry inner src)
    (hreads : (Capabilities.standard read base).Reads src n₀) (hr : r ∈ n₀.dependencies)
    (ht : r.asTemplate) (htarget : resolveReference base r.file.path src.file = .ok target)
    {raw : List UInt8} (hraw : read target = .ok raw) :
    OpenFiles read base entry (inner ++ [target]) ⟨Utf8.decodeLossy raw, some target⟩ where
  refers := h.isChain_append hreads hr ht htarget
  normalized p hp := by
    rcases List.mem_append.mp hp with hp | hp
    · exact h.normalized p hp
    · obtain rfl := List.mem_singleton.mp hp
      exact exists_normalize_of_resolve htarget
  current := ⟨target, raw, by rw [← List.cons_append, List.getLast?_concat], hraw, rfl⟩

/-- A reference to an open file closes a circle. -/
theorem circle_of_checkCircular (h : OpenFiles read base entry inner src)
    (hreads : (Capabilities.standard read base).Reads src n₀) (hr : r ∈ n₀.dependencies)
    (ht : r.asTemplate) (htarget : resolveReference base r.file.path src.file = .ok target)
    {written : String} {e : TemplateError} {chain : List Path} (he : e.circle? = some chain)
    (hcircular : checkCircular (entry :: inner) written target = .error e) :
    Circle (.standard read base) entry chain := by
  obtain ⟨before, first, behind, hopened, hsame, hlisted⟩ := checkCircular_eq_error hcircular
  obtain rfl : first :: (behind ++ [target]) = chain := Option.some.inj (hlisted.symm.trans he)
  refine ⟨first, behind, target, rfl, hsame, ?_, ?_⟩
  · cases before with
    | nil => exact .inr (List.cons.inj hopened).1.symm
    | cons _ before =>
      -- behind the entry all open files were found by references, so they are normalised
      have hfirst : first ∈ inner := by
        rw [(List.cons.inj hopened).2]
        exact List.mem_append_right _ List.mem_cons_self
      obtain ⟨p, rfl⟩ := h.normalized first hfirst
      obtain ⟨q, rfl⟩ := exists_normalize_of_resolve htarget
      exact .inl (Path.normalize_eq_of_same hsame)
  · have hchain := h.isChain_append hreads hr ht htarget
    rw [← List.cons_append, hopened, List.append_assoc] at hchain
    exact hchain.right_of_append

/-- An error about a circle lists one. -/
theorem circle_of_fails {depth : Nat} (h : OpenFiles read base entry inner src)
    {e : TemplateError} {chain : List Path} (he : e.circle? = some chain)
    (hfails : (openText (.standard read base) depth (entry :: inner) src).Fails e) :
    Circle (.standard read base) entry chain := by
  induction depth generalizing inner src e with
  | zero => exact absurd hfails Load.none_not_fails
  | succ depth ih =>
    have hcaps := Capabilities.parsesFresh_standard read base
    rcases openText_cases hcaps src with ⟨e', hrefuses, herror⟩ | ⟨n₀, build, hb⟩
    · rw [herror, Load.ofExcept_fails, Except.error.injEq] at hfails
      subst hfails
      rw [hrefuses.circle?_eq_none] at he
      cases he
    · rw [hb.openText_eq, Load.bind_fails] at hfails
      obtain hfails | ⟨_, -, hfails⟩ := hfails
      · obtain ⟨r, hr, hfails⟩ := Load.exists_fails_of_mapM hfails
        have hsource : r.file.source = src.file := by
          rw [(hb.fresh r hr).1]
          rfl
        obtain ⟨e', rfl, hcause⟩ := fill_fails hfails
        rw [TemplateError.circle?_via] at he
        rw [standard_resolve, hsource] at hcause
        -- only an open target is a circle here; a circle further inside is the nested document's
        obtain hcause | ⟨target, htarget,
          ⟨reason, -, rfl⟩ | ⟨ht, hcircular | ⟨raw, hraw, hnested⟩⟩⟩ := hcause
        · rw [circle?_of_resolveReference hcause] at he
          cases he
        · cases he
        · exact h.circle_of_checkCircular hb.reads hr ht htarget he hcircular
        · exact ih (h.append hb.reads hr ht htarget hraw) he hnested
      · exact absurd hfails Load.pure_fails

end OpenFiles

/-- An error about a circle in loading a file lists a circle. -/
theorem circle_of_loadFile_fails {depth : Nat} {p : Path} {e : TemplateError} {chain : List Path}
    (he : e.circle? = some chain) (h : (loadFile (.standard read base) depth p).Fails e) :
    Circle (.standard read base) p chain := by
  rw [loadFile, Load.bind_fails] at h
  obtain h | ⟨raw, hraw, h⟩ := h
  · obtain ⟨reason, -, rfl⟩ := Load.read_fails.mp h
    cases he
  · exact (OpenFiles.entry_only (Load.read_yields.mp hraw)).circle_of_fails he h

end

/-- With finitely many readable files every loading of a file has one answer, for all bounds on the
nesting that allow as many documents. A loaded file is in no document nested in its own, and files
nested in each other are different; a file is not loaded if references lead from it into a circle;
and an error about a circle lists one. -/
theorem loading_detects_circles (read : Path → Except String (List UInt8)) (base : Option Path) :
    (∀ paths : List Path, (∀ p raw, read p = .ok raw → ∃ q ∈ paths, q.same p) →
      ∀ p, ∃ answer, ∀ depth ≥ paths.length,
        loadFile (.standard read base) depth p = some answer) ∧
    ∀ depth p,
      (∀ n targets, (loadFile (.standard read base) depth p).Yields n → Nesting n targets →
        (p :: targets).Pairwise Path.Apart) ∧
      (∀ q q', Relation.ReflTransGen (RefersTo (.standard read base)) p q →
        Relation.TransGen (RefersTo (.standard read base)) q q' → q.same q' →
        ∀ n, ¬ (loadFile (.standard read base) depth p).Yields n) ∧
      ∀ written chain trace,
        (loadFile (.standard read base) depth p).Fails
          (.resolution written (.circular chain) trace) →
        Circle (.standard read base) p chain := by
  have hcaps := Capabilities.parsesFresh_standard read base
  refine ⟨fun paths hpaths p ↦ exists_loadFile_eq hcaps hpaths p, fun depth p ↦ ⟨?_, ?_, ?_⟩⟩
  · exact fun n targets h hts ↦ hts.pairwise hcaps h
  · exact fun q q' hreach hcircle hsame n ↦ loadFile_not_yields_of_circle hcaps hreach hcircle hsame
  · exact fun written chain trace h ↦ circle_of_loadFile_fails rfl h

/-- A file that refers to another, and two that refer to each other. -/
def bookFiles : MemoryFiles := ⟨[
  (⟨"/book.tmpl"⟩, Utf8.encode "include \"part.tmpl\""),
  (⟨"/part.tmpl"⟩, Utf8.encode "\"part\""),
  (⟨"/loop.tmpl"⟩, Utf8.encode "include \"back.tmpl\""),
  (⟨"/back.tmpl"⟩, Utf8.encode "extends \"./loop.tmpl\"")]⟩

theorem loading_detects_circles_bookFiles :
    (∀ p, ∃ answer, ∀ depth ≥ 4, loadFile (.standard bookFiles.read none) depth p = some answer) ∧
    (∃ n, (loadFile (.standard bookFiles.read none) 2 ⟨"/book.tmpl"⟩).Yields n ∧
      Nesting n [⟨"/part.tmpl"⟩] ∧
      [(⟨"/book.tmpl"⟩ : Path), ⟨"/part.tmpl"⟩].Pairwise Path.Apart) ∧
    ∃ written trace,
      (loadFile (.standard bookFiles.read none) 2 ⟨"//loop.tmpl"⟩).Fails
        (.resolution written (.circular [⟨"//loop.tmpl"⟩, ⟨"/back.tmpl"⟩, ⟨"/loop.tmpl"⟩]) trace) ∧
      Circle (.standard bookFiles.read none) ⟨"//loop.tmpl"⟩
        [⟨"//loop.tmpl"⟩, ⟨"/back.tmpl"⟩, ⟨"/loop.tmpl"⟩] ∧
      ∀ depth n, ¬ (loadFile (.standard bookFiles.read none) depth ⟨"//loop.tmpl"⟩).Yields n := by
  obtain ⟨hanswer, hfiles⟩ := loading_detects_circles bookFiles.read none
  refine ⟨hanswer _ fun p raw ↦ MemoryFiles.exists_same_of_read, ?_, ?_⟩
  · obtain ⟨log, n, hn, r, hr, ht, htarget, hd⟩ :=
      Logged.exists_of_any (x := loadFile (.standard bookFiles.read none) 2 ⟨"/book.tmpl"⟩)
        (P := fun n ↦ ∃ r ∈ n.dependencies, r.asTemplate ∧ r.file.target = some ⟨"/part.tmpl"⟩ ∧
          r.document.isSome) (by decide +kernel)
    obtain ⟨d, hd⟩ := Option.isSome_iff_exists.mp hd
    have hnesting : Nesting n [⟨"/part.tmpl"⟩] := .cons hr ht htarget hd (.nil d)
    exact ⟨n, ⟨log, hn⟩, hnesting, (hfiles 2 ⟨"/book.tmpl"⟩).1 n _ ⟨log, hn⟩ hnesting⟩
  · obtain ⟨log, e, he, hcircle⟩ :=
      Logged.exists_error_of_any (x := loadFile (.standard bookFiles.read none) 2 ⟨"//loop.tmpl"⟩)
        (P := fun e ↦ e.circle? = some [⟨"//loop.tmpl"⟩, ⟨"/back.tmpl"⟩, ⟨"/loop.tmpl"⟩])
        (by decide +kernel)
    obtain ⟨written, trace, rfl⟩ := TemplateError.circle?_eq_some.mp hcircle
    have hlisted := (hfiles 2 ⟨"//loop.tmpl"⟩).2.2 written _ trace ⟨log, he⟩
    refine ⟨written, trace, ⟨log, he⟩, hlisted, ?_⟩
    obtain ⟨_, _, _, -, -, -, hchain⟩ := hlisted
    simp only [List.isChain_cons_cons] at hchain
    exact fun depth ↦ (hfiles depth ⟨"//loop.tmpl"⟩).2.1 _ ⟨"/loop.tmpl"⟩ .refl
      (.tail (.single hchain.1) hchain.2.1) (by decide)

end Templating
