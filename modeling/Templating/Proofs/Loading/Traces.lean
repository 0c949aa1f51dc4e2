import Templating.Files.Memory
import Templating.Proofs.Loading.Cycles

/-!
# Traces of errors

An error of loading carries the positions of the references that led to it. A loading fails at the
first reference of a document that cannot be loaded; the failure is that of the reference itself, or
one of the document that it leads to. So the trace is a chain of references from the failing one out
to the entry document, each of which leads to the file that the one before stands in (`Trail`,
`exists_trail_of_openText_fails`).
-/

namespace Templating

open Node Dependency

namespace TemplateError

/-- The trace of an error, if it is of a kind that keeps one. -/
def trace? : TemplateError → Option (List Position)
  | .resolution _ _ trace | .read _ _ trace | .malformed _ _ trace => some trace
  | .config _ | .structural .. | .filterFailed .. | .notABlock _ | .unloaded .. => none

/-- The error without the references that led to it. -/
def untraced : TemplateError → TemplateError
  | .resolution path cause _ => .resolution path cause []
  | .read path reason _ => .read path reason []
  | .malformed source errors _ => .malformed source errors []
  | e => e

@[simp] theorem trace?_via (e : TemplateError) (site : Position) :
    (e.via site).trace? = e.trace?.map (· ++ [site]) := by
  cases e <;> rfl

@[simp] theorem untraced_via (e : TemplateError) (site : Position) :
    (e.via site).untraced = e.untraced := by
  cases e <;> rfl

end TemplateError

/-! ### Waypoints -/

/-- A reference that a loading came to: the files that were open then, the text with the reference,
and the reference as it was parsed. -/
structure Waypoint where
  opened : List Path
  source : Source
  reference : Dependency

namespace Waypoint

variable (caps : Capabilities)

/-- The reference names the file. -/
def Names (w : Waypoint) (target : Path) : Prop :=
  caps.resolve caps.base w.reference.file.path w.source.file = .ok target

/-- The reference is one of the document of its text, and all references before it are loaded. -/
structure Stands (w : Waypoint) : Prop where
  position : w.reference.site.file = w.source.file
  reached : ∃ n before behind depth, caps.Reads w.source n ∧
    n.dependencies = before ++ w.reference :: behind ∧
    ∀ r ∈ before, ∃ f d,
      (fetch caps (caps.opener depth) w.opened r.asTemplate r.file r.site).Yields (f, d)

/-- The reference `outer` is to the template that `inner` stands in. -/
def Leads (inner outer : Waypoint) : Prop :=
  outer.reference.asTemplate ∧ ∃ target raw, outer.Names caps target ∧
    caps.read target = .ok raw ∧ inner.source = ⟨Utf8.decodeLossy raw, some target⟩ ∧
    inner.opened = outer.opened ++ [target]

/-- The errors of a reference that fails by itself, not for a reference in its document. -/
inductive Fails (w : Waypoint) : TemplateError → Prop where
  /-- The reference names no file. -/
  | unresolved {path : String} {cause : Unresolved} :
    caps.resolve caps.base w.reference.file.path w.source.file =
      .error (.resolution path cause []) →
    Fails w (.resolution path cause [])
  /-- The template is open already. -/
  | circular {target : Path} {path : String} {cause : Unresolved} :
    w.reference.asTemplate → w.Names caps target →
    checkCircular w.opened w.reference.file.path target = .error (.resolution path cause []) →
    Fails w (.resolution path cause [])
  /-- The file cannot be read. -/
  | unreadable {target : Path} {reason : String} :
    w.Names caps target → caps.read target = .error reason → Fails w (.read target reason [])
  /-- The file is no template. -/
  | malformed {target : Path} {raw : List UInt8} {errors : List SyntaxError} :
    w.reference.asTemplate → w.Names caps target → caps.read target = .ok raw →
    caps.Refuses ⟨Utf8.decodeLossy raw, some target⟩
      (.malformed ⟨Utf8.decodeLossy raw, some target⟩ errors []) →
    Fails w (.malformed ⟨Utf8.decodeLossy raw, some target⟩ errors [])

end Waypoint

/-- The references that led to an error while a text was opened, innermost first: the first of them
fails, each of the others leads to the template that the one before stands in, the last is one of
the text, and the trace of the error consists of their positions. -/
structure Trail (caps : Capabilities) (opened : List Path) (src : Source) (e : TemplateError)
    (ws : List Waypoint) : Prop where
  trace : e.trace? = some (ws.map (·.reference.site))
  stands : ∀ w ∈ ws, w.Stands caps
  innermost : ∃ w ∈ ws.head?, w.Fails caps e.untraced
  chain : ws.IsChain (Waypoint.Leads caps)
  outermost : ∃ w ∈ ws.getLast?, w.source = src ∧ w.opened = opened

namespace Trail

variable {caps : Capabilities} {opened : List Path} {src : Source} {e : TemplateError}
  {ws : List Waypoint} {w : Waypoint}

/-- A reference that fails by itself. -/
theorem single (hw : w.Stands caps) (hf : w.Fails caps e) :
    Trail caps w.opened w.source (e.via w.reference.site) [w] where
  trace := by cases hf <;> rfl
  stands := by simpa using hw
  innermost := by
    refine ⟨w, rfl, ?_⟩
    rw [TemplateError.untraced_via]
    cases hf with
    | unresolved h => exact .unresolved h
    | circular ht hn h => exact .circular ht hn h
    | unreadable hn h => exact .unreadable hn h
    | malformed ht hn hr h => exact .malformed ht hn hr h
  chain := List.isChain_singleton w
  outermost := ⟨w, rfl, rfl, rfl⟩

/-- A reference to a template in which there is a trail. -/
theorem append (h : Trail caps opened src e ws) (hw : w.Stands caps)
    (hlead : ∀ v : Waypoint, v.source = src → v.opened = opened → v.Leads caps w) :
    Trail caps w.opened w.source (e.via w.reference.site) (ws ++ [w]) where
  trace := by simp [h.trace]
  stands := by simpa [or_imp, forall_and] using ⟨h.stands, hw⟩
  innermost := by
    obtain ⟨v, hv, hf⟩ := h.innermost
    refine ⟨v, ?_, by rwa [TemplateError.untraced_via]⟩
    rw [List.head?_append, Option.mem_def.mp hv]
    rfl
  chain := by
    refine List.isChain_append.mpr ⟨h.chain, List.isChain_singleton w, fun v hv u hu ↦ ?_⟩
    obtain rfl : w = u := Option.some.inj hu
    obtain ⟨v', hv', hsource, hopened⟩ := h.outermost
    obtain rfl : v' = v := Option.mem_unique hv' hv
    exact hlead v' hsource hopened
  outermost := ⟨w, by simp, rfl, rfl⟩

/-- More files are open at an inner reference, so the references of a trail are different. -/
theorem nodup (h : Trail caps opened src e ws) : ws.Nodup := by
  have hlonger : ws.IsChain fun v w ↦ w.opened.length < v.opened.length := by
    refine h.chain.imp fun v w hlead ↦ ?_
    obtain ⟨-, target, -, -, -, -, hopened⟩ := hlead
    simp [hopened]
  have hpairwise : ws.Pairwise fun v w ↦ w.opened.length < v.opened.length := by
    have : IsTrans Waypoint fun v w ↦ w.opened.length < v.opened.length :=
      ⟨fun _ _ _ h h' ↦ Nat.lt_trans h' h⟩
    exact List.isChain_iff_pairwise.mp hlonger
  refine hpairwise.imp fun {v w} hlt he ↦ ?_
  rw [he] at hlt
  exact Nat.lt_irrefl _ hlt

end Trail

/-! ### Failures -/

section

variable {read : Path → Except String (List UInt8)} {base : Option Path} {depth : Nat}
  {opened : List Path} {src : Source} {e : TemplateError}

/-- The references of a text stand in its file. -/
theorem site_file_of_reads {n : Node} (h : (Capabilities.standard read base).Reads src n)
    {r : Dependency} (hr : r ∈ n.dependencies) : r.site.file = src.file := by
  obtain ⟨ls, -, hn⟩ := h
  exact (Source.parsed_of_documentOf hn).site_file (by simpa using hr)

theorem exists_of_resolveReference_error {source : Option Path} {written : String}
    (h : resolveReference base written source = .error e) :
    ∃ path cause, e = .resolution path cause [] := by
  rcases resolveReference_cases base written source with ⟨p, hp⟩ | ⟨cause, -, he⟩
  · rw [hp] at h
    cases h
  · rw [he, Except.error.injEq] at h
    exact ⟨_, _, h.symm⟩

theorem exists_of_checkCircular_error {written : String} {target : Path}
    (h : checkCircular opened written target = .error e) :
    ∃ path cause, e = .resolution path cause [] := by
  unfold checkCircular at h
  split at h <;> cases h
  exact ⟨_, _, rfl⟩

/-- A text is refused, or there are references that led to the error. -/
theorem exists_trail_of_openText_fails
    (h : (openText (.standard read base) depth opened src).Fails e) :
    (Capabilities.standard read base).Refuses src e ∨
      ∃ ws, Trail (.standard read base) opened src e ws := by
  induction depth generalizing opened src e with
  | zero => exact absurd h Load.none_not_fails
  | succ depth ih =>
    rcases openText_cases (Capabilities.parsesFresh_standard read base) src with
      ⟨e', hrefuses, herror⟩ | ⟨n₀, build, hb⟩
    · rw [herror, Load.ofExcept_fails, Except.error.injEq] at h
      exact .inl (h ▸ hrefuses)
    · right
      rw [hb.openText_eq, Load.bind_fails] at h
      obtain h | ⟨_, -, h⟩ := h
      swap
      · exact absurd h Load.pure_fails
      obtain ⟨before, r, behind, hsplit, hbefore, hfails⟩ := Load.exists_append_of_mapM_fails h
      have hr : r ∈ n₀.dependencies := by simp [hsplit]
      have hw : Waypoint.Stands (.standard read base) ⟨opened, src, r⟩ := by
        refine ⟨site_file_of_reads hb.reads hr, n₀, before, behind, depth, hb.reads, hsplit,
          fun r' hr' ↦ ?_⟩
        obtain ⟨_, hv⟩ := hbefore r' hr'
        obtain ⟨⟨f, d⟩, hfetch, -⟩ := Load.bind_yields.mp hv
        exact ⟨f, d, hfetch⟩
      have hsource : r.file.source = src.file := by
        rw [(hb.fresh r hr).1]
        rfl
      obtain ⟨e', rfl, hcause⟩ := fill_fails hfails
      rw [hsource] at hcause
      obtain hcause | ⟨target, htarget,
        ⟨reason, hread, rfl⟩ | ⟨ht, hcircular | ⟨raw, hraw, hnested⟩⟩⟩ := hcause
      · obtain ⟨path, cause, rfl⟩ := exists_of_resolveReference_error hcause
        exact ⟨_, .single hw (.unresolved hcause)⟩
      · exact ⟨_, .single hw (.unreadable htarget hread)⟩
      · obtain ⟨path, cause, rfl⟩ := exists_of_checkCircular_error hcircular
        exact ⟨_, .single hw (.circular ht htarget hcircular)⟩
      · rcases ih hnested with hrefuses | ⟨ws, hws⟩
        · obtain ⟨errors, rfl⟩ := hrefuses.exists_malformed
          exact ⟨_, .single hw (.malformed ht htarget hraw hrefuses)⟩
        · exact ⟨_, hws.append hw fun v hvs hvo ↦ ⟨ht, target, raw, htarget, hraw, hvs, hvo⟩⟩

end

/-- A loading fails because a text is no template by itself, and then the trace is empty, or along
a trail of different references whose positions are the trace; only a file that cannot be read at
all is no text. -/
theorem failures_traced (read : Path → Except String (List UInt8)) (base : Option Path)
    (depth : Nat) :
    (∀ src e, (loadSource (.standard read base) depth src).Fails e →
      ((∃ errors, e = .malformed src errors []) ∧
          (Capabilities.standard read base).Refuses src e) ∨
        ∃ ws, Trail (.standard read base) src.file.toList src e ws ∧ ws.Nodup) ∧
    ∀ p e, (loadFile (.standard read base) depth p).Fails e →
      (∃ reason, read p = .error reason ∧ e = .read p reason []) ∨
        ∃ raw src, read p = .ok raw ∧ src = ⟨Utf8.decodeLossy raw, some p⟩ ∧
          (((∃ errors, e = .malformed src errors []) ∧
              (Capabilities.standard read base).Refuses src e) ∨
            ∃ ws, Trail (.standard read base) [p] src e ws ∧ ws.Nodup) := by
  have hsource : ∀ src e, (loadSource (.standard read base) depth src).Fails e →
      ((∃ errors, e = .malformed src errors []) ∧
          (Capabilities.standard read base).Refuses src e) ∨
        ∃ ws, Trail (.standard read base) src.file.toList src e ws ∧ ws.Nodup := by
    intro src e h
    rcases exists_trail_of_openText_fails h with hrefuses | ⟨ws, hws⟩
    · exact .inl ⟨hrefuses.exists_malformed, hrefuses⟩
    · exact .inr ⟨ws, hws, hws.nodup⟩
  refine ⟨hsource, fun p e h ↦ ?_⟩
  rw [loadFile, Load.bind_fails] at h
  obtain h | ⟨raw, hraw, h⟩ := h
  · obtain ⟨reason, hreason, rfl⟩ := Load.read_fails.mp h
    exact .inl ⟨reason, hreason, rfl⟩
  · exact .inr ⟨raw, _, Load.read_yields.mp hraw, rfl, hsource _ e h⟩

/-- A page whose layout includes a file that is no template. -/
def spoiltFiles : MemoryFiles := ⟨[
  (⟨"/page.tmpl"⟩, Utf8.encode "extends \"layout.tmpl\" block main \x7b \x7d"),
  (⟨"/layout.tmpl"⟩, Utf8.encode
    "include \"head.tmpl\"\nblock main \x7b include \"/bad.tmpl\" \x7d"),
  (⟨"/head.tmpl"⟩, Utf8.encode "\"head\""),
  (⟨"/bad.tmpl"⟩, Utf8.encode "block \x7b \x7d")]⟩

theorem failures_traced_spoiltFiles :
    ∃ e, (loadFile (.standard spoiltFiles.read (some ⟨"/"⟩)) 3 ⟨"/page.tmpl"⟩).Fails e ∧
      e.trace? = some [⟨some ⟨"/layout.tmpl"⟩, 2⟩, ⟨some ⟨"/page.tmpl"⟩, 1⟩] ∧
      ∃ raw src, spoiltFiles.read ⟨"/page.tmpl"⟩ = .ok raw ∧
        src = ⟨Utf8.decodeLossy raw, some ⟨"/page.tmpl"⟩⟩ ∧
        ∃ ws, Trail (.standard spoiltFiles.read (some ⟨"/"⟩)) [⟨"/page.tmpl"⟩] src e ws ∧
          ws.Nodup := by
  obtain ⟨log, e, he, htrace⟩ := Logged.exists_error_of_any
    (x := loadFile (.standard spoiltFiles.read (some ⟨"/"⟩)) 3 ⟨"/page.tmpl"⟩)
    (P := fun e ↦ e.trace? = some [⟨some ⟨"/layout.tmpl"⟩, 2⟩, ⟨some ⟨"/page.tmpl"⟩, 1⟩])
    (by decide +kernel)
  refine ⟨e, ⟨log, he⟩, htrace, ?_⟩
  obtain ⟨reason, -, rfl⟩ | ⟨raw, src, hraw, hsrc, ⟨⟨errors, rfl⟩, -⟩ | hws⟩ :=
    (failures_traced spoiltFiles.read (some ⟨"/"⟩) 3).2 ⟨"/page.tmpl"⟩ e ⟨log, he⟩
  · cases htrace
  · cases htrace
  · exact ⟨raw, src, hraw, hsrc, hws⟩

end Templating
