import Mathlib.Data.List.Chain
import Mathlib.Logic.Relation
import Templating.Proofs.Loading.Composition

/-!
# Nesting of files

Files that are open at a time are pairwise different. So are the files of documents that are loaded
into each other (`Nesting.pairwise`), and opening goes no deeper than there are files to read
(`openText_not_tooDeep`). Since every reference of a file leads to a document nested in its own
(`exists_nesting_of_isChain`), files that refer to each other in a circle are not loaded.
-/

namespace Templating

open Node Dependency

/-- The text of the file `p` refers to the template `q`. -/
def RefersTo (caps : Capabilities) (p q : Path) : Prop :=
  ∃ raw n₀, caps.read p = .ok raw ∧ caps.Reads ⟨Utf8.decodeLossy raw, some p⟩ n₀ ∧
    ∃ r ∈ n₀.dependencies, r.asTemplate ∧ caps.resolve caps.base r.file.path (some p) = .ok q

/-- Files of documents that are loaded one into the other, the first of them into `n`. -/
inductive Nesting : Node → List Path → Prop where
  | nil (n : Node) : Nesting n []
  | cons {n d : Node} {r : Dependency} {target : Path} {ts : List Path} :
    r ∈ n.dependencies → r.asTemplate → r.file.target = some target → r.document = some d →
    Nesting d ts → Nesting n (target :: ts)

variable {caps : Capabilities} {depth : Nat} {opened : List Path} {src : Source} {n : Node}

/-! ### Nested files are different -/

/-- Nested files are different, and none of them was open before. -/
theorem Nesting.pairwise_opened (hcaps : caps.ParsesFresh) {ts : List Path} (hts : Nesting n ts)
    (h : (openText caps depth opened src).Yields n) (hopened : opened.Pairwise Path.Apart) :
    (opened ++ ts).Pairwise Path.Apart := by
  induction hts generalizing depth opened src with
  | nil => simpa using hopened
  | @cons n d r target ts hr ht htarget hd _ ih =>
    -- when `r` was fetched, at least the files of `opened` were open
    obtain ⟨depth', opened', r₀, -, hprefix, hapart, hfill⟩ :=
      exists_fill_of_mem_dependencies hcaps h hr
    rw [(fill_fits hfill).1] at ht
    obtain ⟨target', raw, d', hopens, rfl⟩ := (fill_template_yields ht).mp hfill
    obtain rfl : target' = target := Option.some.inj htarget
    obtain rfl : d' = d := Option.some.inj hd
    have hopened' : (opened' ++ [target']).Pairwise Path.Apart := by
      simpa [List.pairwise_append] using ⟨hapart hopened, hopens.apart⟩
    refine (ih hopens.document hopened').sublist ?_
    rw [List.append_assoc, List.singleton_append]
    exact hprefix.sublist.append_right _

/-- The file of a loaded document and the files nested in it are different. -/
theorem Nesting.pairwise (hcaps : caps.ParsesFresh) {p : Path} {ts : List Path}
    (hts : Nesting n ts) (h : (loadFile caps depth p).Yields n) :
    (p :: ts).Pairwise Path.Apart := by
  obtain ⟨raw, -, h⟩ := loadFile_yields.mp h
  exact hts.pairwise_opened hcaps h (List.pairwise_singleton _ _)

/-! ### References lead to nested documents -/

/-- The document was opened from the content of the file. -/
def OpenedFrom (caps : Capabilities) (p : Path) (n : Node) : Prop :=
  ∃ depth opened raw, caps.read p = .ok raw ∧
    (openText caps depth opened ⟨Utf8.decodeLossy raw, some p⟩).Yields n

theorem Capabilities.Reads.unique {n₁ n₂ : Node} (h₁ : caps.Reads src n₁)
    (h₂ : caps.Reads src n₂) : n₁ = n₂ := by
  obtain ⟨ls, hls, h₁⟩ := h₁
  obtain ⟨ls', hls', h₂⟩ := h₂
  rw [hls, Except.ok.injEq] at hls'
  subst hls'
  rw [h₁, Except.ok.injEq] at h₂
  exact h₂

/-- What a file refers to is opened for the document of the file. -/
theorem OpenedFrom.exists_of_refersTo (hcaps : caps.ParsesFresh) {p q : Path}
    (h : OpenedFrom caps p n) (hpq : RefersTo caps p q) :
    ∃ d, OpenedFrom caps q d ∧ ∃ r ∈ n.dependencies, r.asTemplate ∧ r.file.target = some q ∧
      r.document = some d := by
  obtain ⟨depth, opened, raw, hraw, h⟩ := h
  obtain ⟨raw', n₀, hraw', hreads, r₀, hr₀, ht, hq⟩ := hpq
  rw [hraw, Except.ok.injEq] at hraw'
  subst hraw'
  cases depth with
  | zero => exact absurd h openText_zero_not_yields
  | succ depth =>
    obtain ⟨n₁, build, hb⟩ := exists_assembles_of_yields hcaps h
    obtain rfl : n₁ = n₀ := hb.reads.unique hreads
    obtain ⟨rs, hrs, rfl⟩ := hb.yields.mp h
    obtain ⟨r, hr, hfill⟩ := exists_of_mem_forall₂ hrs.flip hr₀
    obtain ⟨target, raw', d, hopens, rfl⟩ := (fill_template_yields ht).mp hfill
    have htarget : target = q := by
      have hsource : r₀.file.source = some p := by
        rw [(hb.fresh r₀ hr₀).1]
        rfl
      have hresolve := hopens.resolve
      rw [hsource, hq, Except.ok.injEq] at hresolve
      exact hresolve.symm
    subst htarget
    refine ⟨d, ⟨_, _, raw', hopens.read, hopens.document⟩, r₀.loadedFrom target raw' (some d), ?_,
      ht, rfl, rfl⟩
    rw [hb.dependencies hrs]
    exact List.mem_flatMap.mpr ⟨_, hr, List.mem_cons_self⟩

/-- References that follow each other from a file on lead to documents nested in the file's. -/
theorem exists_nesting_of_isChain (hcaps : caps.ParsesFresh) {p : Path} {qs : List Path}
    (hqs : (p :: qs).IsChain (RefersTo caps)) (h : OpenedFrom caps p n) : Nesting n qs := by
  induction qs generalizing p n with
  | nil => exact .nil n
  | cons q qs ih =>
    rw [List.isChain_cons_cons] at hqs
    obtain ⟨d, hd, r, hr, ht, htarget, hdoc⟩ := h.exists_of_refersTo hcaps hqs.1
    exact .cons hr ht htarget hdoc (ih hqs.2 hd)

/-- A file is not loaded if references lead from it into a circle. -/
theorem loadFile_not_yields_of_circle (hcaps : caps.ParsesFresh) {p q q' : Path}
    (hreach : Relation.ReflTransGen (RefersTo caps) p q)
    (hcircle : Relation.TransGen (RefersTo caps) q q') (hsame : q.same q') :
    ¬ (loadFile caps depth p).Yields n := by
  intro h
  obtain ⟨raw, hraw, hopen⟩ := loadFile_yields.mp h
  obtain ⟨c, hqc, hcq⟩ := Relation.TransGen.head'_iff.mp hcircle
  obtain ⟨l₁, hchain₁, hlast₁⟩ := List.exists_isChain_cons_of_relationReflTransGen hreach
  obtain ⟨l₂, hchain₂, hlast₂⟩ := List.exists_isChain_cons_of_relationReflTransGen hcq
  -- the way to `q` and once around the circle: `q` and `q'` are both nested in it, hence apart
  have hchain : (p :: (l₁ ++ c :: l₂)).IsChain (RefersTo caps) := by
    rw [← List.cons_append, List.isChain_append]
    refine ⟨hchain₁, hchain₂, fun x hx y hy ↦ ?_⟩
    rw [List.getLast?_eq_some_getLast (by simp), hlast₁, Option.mem_some_iff] at hx
    rw [List.head?_cons, Option.mem_some_iff] at hy
    exact hx ▸ hy ▸ hqc
  have hnest := exists_nesting_of_isChain hcaps hchain ⟨_, _, raw, hraw, hopen⟩
  have hapart := hnest.pairwise hcaps h
  rw [← List.cons_append, List.pairwise_append] at hapart
  have hq : q ∈ p :: l₁ := hlast₁ ▸ List.getLast_mem _
  have hq' : q' ∈ c :: l₂ := hlast₂ ▸ List.getLast_mem _
  have hne := hapart.2.2 q hq q' hq'
  rw [Path.Apart, hsame] at hne
  cases hne

/-! ### Termination -/

/-- The paths that differ from all open files. -/
def remaining (paths opened : List Path) : List Path :=
  paths.filter fun q ↦ opened.all fun p ↦ !p.same q

/-- Opening one of the paths leaves fewer of them. -/
theorem length_remaining_append_lt {paths : List Path} {target q : Path} (hq : q ∈ paths)
    (hsame : q.same target) (hapart : ∀ p ∈ opened, p.Apart target) :
    (remaining paths (opened ++ [target])).length < (remaining paths opened).length := by
  have hsplit : remaining paths (opened ++ [target]) =
      (remaining paths opened).filter fun q ↦ !target.same q := by
    rw [remaining, remaining, List.filter_filter]
    refine List.filter_congr fun q _ ↦ ?_
    simp [Bool.and_comm]
  have hremains : q ∈ remaining paths opened := by
    refine List.mem_filter.mpr ⟨hq, List.all_eq_true.mpr fun p hp ↦ ?_⟩
    have hp := hapart p hp
    rw [Path.apart_iff] at hp
    simpa [Path.same_iff.mp hsame, Path.same] using hp
  rw [hsplit]
  refine List.length_filter_lt_length_iff_exists.mpr ⟨q, hremains, ?_⟩
  simpa [Path.same] using (Path.same_iff.mp hsame).symm

/-- A reference is without an answer if its document is. -/
theorem exists_tooDeep_of_fill {openDocument : Opener} {r : Dependency}
    (h : (fill caps openDocument opened r).TooDeep) :
    ∃ target raw, caps.read target = .ok raw ∧ (∀ p ∈ opened, p.Apart target) ∧
      (openDocument (opened ++ [target]) (Utf8.decodeLossy raw) target).TooDeep := by
  obtain ⟨asTemplate, file, document, site⟩ := r
  cases asTemplate with
  | false =>
    simp only [fill, fetch, Bool.false_eq_true, if_false, Load.bind_tooDeep, Load.mapError_tooDeep,
      Load.ofExcept_not_tooDeep, Load.read_not_tooDeep, Load.pure_not_tooDeep, and_false,
      exists_false, or_false] at h
  | true =>
    simp only [fill, fetch, if_true, Load.bind_tooDeep, Load.mapError_tooDeep,
      Load.ofExcept_not_tooDeep, Load.read_not_tooDeep, Load.pure_not_tooDeep,
      Load.ofExcept_yields, Load.read_yields, and_false, exists_false, or_false, false_or] at h
    obtain ⟨target, -, ⟨⟩, hcircular, raw, hread, h⟩ := h
    exact ⟨target, raw, hread, checkCircular_eq_ok.mp hcircular, h⟩

/-- Opening is answered if fewer files can be read and are not open than the bound says. -/
theorem openText_not_tooDeep (hcaps : caps.ParsesFresh) {paths : List Path}
    (hpaths : ∀ p raw, caps.read p = .ok raw → ∃ q ∈ paths, q.same p)
    (hdepth : (remaining paths opened).length < depth) :
    ¬ (openText caps depth opened src).TooDeep := by
  induction depth generalizing opened src with
  | zero => cases hdepth
  | succ depth ih =>
    rcases openText_cases hcaps src with ⟨e, -, herror⟩ | ⟨n₀, build, hb⟩
    · rw [herror]
      exact Load.ofExcept_not_tooDeep
    · intro h
      rw [hb.openText_eq, Load.bind_tooDeep] at h
      rcases h with h | ⟨rs, -, h⟩
      · obtain ⟨r, -, h⟩ := Load.exists_tooDeep_of_mapM h
        obtain ⟨target, raw, hread, hapart, h⟩ := exists_tooDeep_of_fill h
        -- the target can be read and was not open, so one path less remains for its document
        obtain ⟨q, hq, hsame⟩ := hpaths target raw hread
        have hlt := length_remaining_append_lt hq hsame hapart
        exact ih (by omega) h
      · exact Load.pure_not_tooDeep h

/-- Loading a file has one answer, whatever the bound, if it is as large as the number of files
that can be read. -/
theorem exists_loadFile_eq (hcaps : caps.ParsesFresh) {paths : List Path}
    (hpaths : ∀ p raw, caps.read p = .ok raw → ∃ q ∈ paths, q.same p) (p : Path) :
    ∃ y, ∀ depth ≥ paths.length, loadFile caps depth p = some y := by
  have hanswer : ¬ (loadFile caps paths.length p).TooDeep := by
    intro h
    rw [loadFile, Load.bind_tooDeep] at h
    rcases h with h | ⟨raw, hraw, h⟩
    · exact Load.read_not_tooDeep h
    · obtain ⟨q, hq, hsame⟩ := hpaths p raw (Load.read_yields.mp hraw)
      have hlt := length_remaining_append_lt hq hsame (List.forall_mem_nil _)
      have hle : (remaining paths []).length ≤ paths.length := List.length_filter_le _ _
      exact openText_not_tooDeep hcaps hpaths (by simpa using hlt.trans_le hle) h
  obtain ⟨y, hy⟩ := Option.ne_none_iff_exists'.mp hanswer
  exact ⟨y, fun depth hle ↦ loadFile_le hcaps hle p y hy⟩

end Templating
