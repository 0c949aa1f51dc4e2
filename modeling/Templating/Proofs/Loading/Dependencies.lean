import Templating.Proofs.Loading.Answers
import Templating.Proofs.Node.Documents

/-!
# Dependencies of a document

The references of a document to other files, in document order. Loading a document as it was parsed
fetches its dependencies one after the other and puts what it finds in their places
(`Node.exists_rebuilds`); the dependencies of the result are the fetched ones, each followed by
those of its own document. Loading a loaded document again does nothing
(`Node.populate_eq_pure`).
-/

namespace Templating

/-- A reference of a document to another file, with the document that is loaded for it. -/
structure Dependency where
  /-- The file is read as a template. -/
  asTemplate : Bool
  file : Reference
  document : Option Node
  /-- Where the reference stands. -/
  site : Position

namespace Node

/-- The reference that a node makes. -/
def dependency? : Node → Option Dependency
  | .inherits f d p => some ⟨true, f, d, p⟩
  | .includes f d _ p => some ⟨true, f, d, p⟩
  | .includesRaw f d _ p => some ⟨false, f, d, p⟩
  | _ => none

/-- The references of a document and of all documents loaded for them. -/
def dependencies (n : Node) : List Dependency := n.listing.filterMap dependency?

/-- The references of several nodes. -/
def dependenciesAll (ns : List Node) : List Dependency := (listingAll ns).filterMap dependency?

end Node

/-- A dependency followed by those of its document. -/
def Dependency.unfolded (r : Dependency) : List Dependency :=
  r :: Node.dependenciesAll r.document.toList

namespace Node

@[simp] theorem dependenciesAll_nil : dependenciesAll [] = [] := rfl

@[simp] theorem dependenciesAll_cons (n : Node) (ns : List Node) :
    dependenciesAll (n :: ns) = n.dependencies ++ dependenciesAll ns := by
  simp [dependenciesAll, dependencies]

theorem dependenciesAll_singleton (n : Node) : dependenciesAll [n] = n.dependencies := by simp

@[simp] theorem dependenciesAll_append (ns ms : List Node) :
    dependenciesAll (ns ++ ms) = dependenciesAll ns ++ dependenciesAll ms := by
  induction ns with
  | nil => rfl
  | cons n ns ih => simp [ih]

@[simp] theorem dependencies_block (h : BlockHead) (ns : List Node) :
    (Node.block h ns).dependencies = dependenciesAll ns := by
  simp [dependencies, dependenciesAll, List.filterMap_cons, dependency?]

theorem filterMap_cons_dependency? (n : Node) (ns : List Node) :
    (n :: ns).filterMap dependency? = n.dependency?.toList ++ ns.filterMap dependency? := by
  cases h : n.dependency? <;> simp [h]

theorem dependencies_leaf {n : Node} (h : isLeaf n) :
    n.dependencies = n.dependency?.toList ++ dependenciesAll n.document?.toList := by
  rw [dependencies, listing_leaf h, filterMap_cons_dependency?, dependenciesAll]

theorem dependencies_framed (F : Frame) (ns : List Node) :
    (framed F ns).dependencies = (framed F ns).dependency?.toList ++
      (dependenciesAll (framed F ns).document?.toList ++ dependenciesAll ns) := by
  rw [dependencies, listing_framed, filterMap_cons_dependency?, List.filterMap_append]
  rfl

@[simp] theorem dependencies_inherits (f : Reference) (d : Option Node) (p : Position) :
    (Node.inherits f d p).dependencies = (Dependency.mk true f d p).unfolded :=
  dependencies_leaf rfl

@[simp] theorem dependencies_includes_none (f : Reference) (d : Option Node) (p : Position) :
    (Node.includes f d none p).dependencies = (Dependency.mk true f d p).unfolded :=
  dependencies_leaf rfl

@[simp] theorem dependencies_includes_some (f : Reference) (d : Option Node) (ns : List Node)
    (q p : Position) : (Node.includes f d (some ⟨ns, q⟩) p).dependencies =
      (Dependency.mk true f d p).unfolded ++ dependenciesAll ns :=
  dependencies_framed (.includes f d q p) ns

@[simp] theorem dependencies_includesRaw (f : Reference) (d : Option Node) (us : List FilterUse)
    (p : Position) : (Node.includesRaw f d us p).dependencies =
      (Dependency.mk false f d p).unfolded :=
  dependencies_leaf rfl

theorem dependencies_framed_of_eq_none {F : Frame} (hF : (framed F []).dependency? = none)
    (ns : List Node) : (framed F ns).dependencies = dependenciesAll ns := by
  rw [dependencies_framed]
  cases F with
  | includes => cases hF
  | _ => rfl

theorem dependencies_leaf_of_eq_none {n : Node} (hn : n.isLeaf) (hd : n.dependency? = none) :
    n.dependencies = [] := by
  rw [dependencies_leaf hn, hd]
  cases n, hn using leaf_cases with
  | inherits => cases hd
  | includes => cases hd
  | includesRaw => cases hd
  | _ => rfl

@[simp] theorem dependencies_group (ns : List Node) (p : Position) :
    (Node.group ⟨ns, p⟩).dependencies = dependenciesAll ns :=
  dependencies_framed_of_eq_none (F := .group p) rfl ns

@[simp] theorem dependencies_filter (u : FilterUse) (ns : List Node) (p : Position) :
    (Node.filter u ⟨ns, p⟩).dependencies = dependenciesAll ns :=
  dependencies_framed_of_eq_none (F := .filter u p) rfl ns

@[simp] theorem dependencies_tag (h : TagHead) (ns : List Node) (p : Position) :
    (Node.tag h ⟨ns, p⟩).dependencies = dependenciesAll ns :=
  dependencies_framed_of_eq_none (F := .tag h p) rfl ns

@[simp] theorem dependencies_mixin_some (h : MixinHead) (ns : List Node) (p : Position) :
    (Node.mixin h (some ⟨ns, p⟩)).dependencies = dependenciesAll ns :=
  dependencies_framed_of_eq_none (F := .mixin h p) rfl ns

end Node

namespace Dependency

/-- The reference has not been loaded. -/
def IsPending (r : Dependency) : Prop := r.file.isLoaded = false ∧ r.document = none

/-- `r` is the dependency `r₀`, perhaps loaded. -/
def Fits (r₀ r : Dependency) : Prop := r.asTemplate = r₀.asTemplate ∧ r.site = r₀.site

section

variable (caps : Capabilities) (openDocument : Opener) (opened : List Path)

/-- Fetch the file of a dependency. -/
def fill (r : Dependency) : Load Dependency := do
  let (f, d) ← fetch caps openDocument opened r.asTemplate r.file r.site
  pure { r with file := f, document := d }

end

end Dependency

variable {caps : Capabilities} {openDocument : Opener} {opened : List Path}

theorem fetch_template_yields {file f : Reference} {d : Option Node} {site : Position} :
    (fetch caps openDocument opened true file site).Yields (f, d) ↔
      ∃ target raw n, caps.resolve caps.base file.path file.source = .ok target ∧
        checkCircular opened file.path target = .ok () ∧ caps.read target = .ok raw ∧
        (openDocument (opened ++ [target]) (Utf8.decodeLossy raw) target).Yields n ∧
        f = { file with
          target := some target, raw := some raw, text := some (Utf8.decodeLossy raw) } ∧
        d = some n := by
  simp only [fetch, Load.mapError_yields, Load.bind_yields, Load.ofExcept_yields, if_true,
    Load.read_yields, Load.pure_yields, Prod.mk.injEq]
  constructor
  · rintro ⟨target, htarget, ⟨⟩, hcircular, raw, hraw, n, hn, _, rfl, rfl, rfl⟩
    exact ⟨target, raw, n, htarget, hcircular, hraw, hn, rfl, rfl⟩
  · rintro ⟨target, raw, n, htarget, hcircular, hraw, hn, rfl, rfl⟩
    exact ⟨target, htarget, (), hcircular, raw, hraw, n, hn, _, rfl, rfl, rfl⟩

theorem fetch_raw_yields {file f : Reference} {d : Option Node} {site : Position} :
    (fetch caps openDocument opened false file site).Yields (f, d) ↔
      ∃ target raw, caps.resolve caps.base file.path file.source = .ok target ∧
        caps.read target = .ok raw ∧
        f = { file with
          target := some target, raw := some raw, text := some (Utf8.decodeLossy raw) } ∧
        d = none := by
  simp only [fetch, Load.mapError_yields, Load.bind_yields, Load.ofExcept_yields,
    Bool.false_eq_true, if_false, Load.read_yields, Load.pure_yields, Prod.mk.injEq]
  constructor
  · rintro ⟨target, htarget, raw, hraw, _, rfl, rfl, rfl⟩
    exact ⟨target, raw, htarget, hraw, rfl, rfl⟩
  · rintro ⟨target, raw, htarget, hraw, rfl, rfl⟩
    exact ⟨target, htarget, raw, hraw, _, rfl, rfl, rfl⟩

namespace Node

open Dependency

theorem fill_fits {r₀ r : Dependency} (h : (fill caps openDocument opened r₀).Yields r) :
    r₀.Fits r := by
  simp only [fill, Load.bind_yields, Load.pure_yields] at h
  obtain ⟨_, _, rfl⟩ := h
  exact ⟨rfl, rfl⟩

/-- Loading fetches the dependencies of nodes in order, and `build` puts them in their places. -/
structure Rebuilds (ns : List Node) (build : List Dependency → List Node) : Prop where
  populate_eq : ∀ caps openDocument opened, populateAll caps openDocument opened ns =
    (dependenciesAll ns).mapM (fill caps openDocument opened) >>= fun rs ↦ pure (build rs)
  dependencies_eq : ∀ rs, List.Forall₂ Fits (dependenciesAll ns) rs →
    dependenciesAll (build rs) = rs.flatMap unfolded
  length_eq : ∀ rs, List.Forall₂ Fits (dependenciesAll ns) rs → (build rs).length = ns.length

theorem populateAll_cons (n : Node) (ns : List Node) :
    populateAll caps openDocument opened (n :: ns) = (do
      let ms ← populateAll caps openDocument opened [n]
      let ms' ← populateAll caps openDocument opened ns
      pure (ms ++ ms')) := by
  simp [populateAll]

namespace Rebuilds

variable {ns : List Node} {build : List Dependency → List Node}

theorem nil : Rebuilds [] fun _ ↦ [] where
  populate_eq caps openDocument opened := by simp [populateAll]
  dependencies_eq rs h := by
    rw [dependenciesAll_nil, List.forall₂_nil_left_iff] at h
    simp [h]
  length_eq _ _ := rfl

theorem fits_cons {n : Node} {rs : List Dependency}
    (h : List.Forall₂ Fits (dependenciesAll (n :: ns)) rs) :
    List.Forall₂ Fits (dependenciesAll [n]) (rs.take n.dependencies.length) ∧
      List.Forall₂ Fits (dependenciesAll ns) (rs.drop n.dependencies.length) := by
  rw [dependenciesAll_cons] at h
  constructor
  · simpa using List.forall₂_take n.dependencies.length h
  · simpa using List.forall₂_drop n.dependencies.length h

theorem cons {n : Node} {build' : List Dependency → List Node} (hn : Rebuilds [n] build)
    (hns : Rebuilds ns build') :
    Rebuilds (n :: ns) fun rs ↦
      build (rs.take n.dependencies.length) ++ build' (rs.drop n.dependencies.length) where
  populate_eq caps openDocument opened := by
    rw [populateAll_cons, hn.populate_eq, hns.populate_eq, dependenciesAll_singleton,
      dependenciesAll_cons, List.mapM_append]
    simp only [bind_assoc, pure_bind]
    refine Load.bind_congr_of_yields fun rs hrs ↦ bind_congr fun rs' ↦ ?_
    rw [(Load.mapM_yields.mp hrs).length_eq, List.take_left, List.drop_left]
  dependencies_eq rs h := by
    obtain ⟨hfirst, hrest⟩ := fits_cons h
    rw [dependenciesAll_append, hn.dependencies_eq _ hfirst, hns.dependencies_eq _ hrest,
      ← List.flatMap_append, List.take_append_drop]
  length_eq rs h := by
    obtain ⟨hfirst, hrest⟩ := fits_cons h
    rw [List.length_append, hn.length_eq _ hfirst, hns.length_eq _ hrest, List.length_singleton,
      List.length_cons, Nat.add_comm]

theorem block (h : Rebuilds ns build) (k : BlockHead) :
    Rebuilds [.block k ns] fun rs ↦ [.block k (build rs)] where
  populate_eq caps openDocument opened := by
    rw [dependenciesAll_singleton, dependencies_block]
    simp [populateAll, populate, h.populate_eq]
  dependencies_eq rs hrs := by
    rw [dependenciesAll_singleton, dependencies_block] at hrs ⊢
    exact h.dependencies_eq rs hrs
  length_eq _ _ := rfl

/-- A frame that is no reference. -/
theorem framed {F : Frame} (hF : (framed F []).dependency? = none) (h : Rebuilds ns build) :
    Rebuilds [.framed F ns] fun rs ↦ [.framed F (build rs)] where
  populate_eq caps openDocument opened := by
    rw [dependenciesAll_singleton, dependencies_framed_of_eq_none hF]
    cases F with
    | includes => cases hF
    | _ => simp [Node.framed, populateAll, populate, populateBody, h.populate_eq]
  dependencies_eq rs hrs := by
    rw [dependenciesAll_singleton, dependencies_framed_of_eq_none hF] at hrs ⊢
    exact h.dependencies_eq rs hrs
  length_eq _ _ := rfl

/-- A leaf that is no reference. -/
theorem leaf {n : Node} (hn : n.isLeaf) (hd : n.dependency? = none) :
    Rebuilds [n] fun _ ↦ [n] where
  populate_eq caps openDocument opened := by
    rw [dependenciesAll_singleton, dependencies_leaf_of_eq_none hn hd]
    cases n, hn using leaf_cases with
    | inherits => cases hd
    | includes => cases hd
    | includesRaw => cases hd
    | _ => simp [populateAll, populate, populateBody]
  dependencies_eq rs hrs := by
    rw [dependenciesAll_singleton, dependencies_leaf_of_eq_none hn hd] at hrs ⊢
    rw [List.forall₂_nil_left_iff.mp hrs]
    rfl
  length_eq _ _ := rfl

/-- A reference, with nodes beside it. -/
theorem reference {n : Node} (h : Rebuilds ns build) (r₀ : Dependency)
    {g : Reference → Option Node → List Node → Node}
    (hpop : ∀ caps openDocument opened, populateAll caps openDocument opened [n] = (do
      let r ← fill caps openDocument opened r₀
      let ms ← populateAll caps openDocument opened ns
      pure [g r.file r.document ms]))
    (hn : n.dependencies = r₀ :: dependenciesAll ns)
    (hg : ∀ f d rs, (g f d (build rs)).dependencies =
      (Dependency.mk r₀.asTemplate f d r₀.site).unfolded ++ dependenciesAll (build rs)) :
    Rebuilds [n] fun rs ↦ rs.head?.toList.map fun r ↦ g r.file r.document (build rs.tail) where
  populate_eq caps openDocument opened := by
    rw [hpop, h.populate_eq, dependenciesAll_singleton, hn, List.mapM_cons]
    simp
  dependencies_eq rs hrs := by
    rw [dependenciesAll_singleton, hn] at hrs
    obtain ⟨r, rs, hr, hrest, rfl⟩ := List.forall₂_cons_left_iff.mp hrs
    obtain ⟨_, f, d, _⟩ := r
    obtain ⟨rfl, rfl⟩ := hr
    simp [hg, h.dependencies_eq rs hrest]
  length_eq rs hrs := by
    rw [dependenciesAll_singleton, hn] at hrs
    obtain ⟨r, rs, -, -, rfl⟩ := List.forall₂_cons_left_iff.mp hrs
    rfl

end Rebuilds

/-- Loading nodes whose references are all pending. -/
theorem exists_rebuilds {ns : List Node} (h : ∀ r ∈ dependenciesAll ns, r.IsPending) :
    ∃ build, Rebuilds ns build := by
  induction ns using forest_induction with
  | nil => exact ⟨_, .nil⟩
  | leaf n ns hn ih =>
    simp only [dependenciesAll_cons, List.forall_mem_append] at h
    obtain ⟨build, hns⟩ := ih h.2
    suffices hone : ∃ build, Rebuilds [n] build from ⟨_, hone.choose_spec.cons hns⟩
    cases n, hn using leaf_cases with
    | inherits f d p =>
      obtain ⟨hf, rfl⟩ := h.1 ⟨true, f, d, p⟩ (by simp [unfolded])
      exact ⟨_, Rebuilds.nil.reference ⟨true, f, none, p⟩
        (g := fun f d _ ↦ .inherits f d p) (by simp [populateAll, populate, hf, fill])
        (by simp [unfolded]) (by simp)⟩
    | includes f d p =>
      obtain ⟨hf, rfl⟩ := h.1 ⟨true, f, d, p⟩ (by simp [unfolded])
      exact ⟨_, Rebuilds.nil.reference ⟨true, f, none, p⟩
        (g := fun f d _ ↦ .includes f d none p)
        (by simp [populateAll, populate, populateBody, hf, fill]) (by simp [unfolded]) (by simp)⟩
    | includesRaw f d us p =>
      obtain ⟨hf, rfl⟩ := h.1 ⟨false, f, d, p⟩ (by simp [unfolded])
      refine ⟨_, Rebuilds.nil.reference ⟨false, f, none, p⟩
        (g := fun f d _ ↦ .includesRaw f d us p) (fun caps openDocument opened ↦ ?_)
        (by simp [unfolded]) (by simp)⟩
      simp only [populateAll, populate, populateDocument, hf, fill, Bool.false_eq_true, if_false,
        bind_assoc, pure_bind]
      refine Load.bind_congr_of_yields fun x hx ↦ ?_
      obtain ⟨_, _, _, _, _, hd⟩ := fetch_raw_yields (f := x.1) (d := x.2).mp hx
      rw [hd]
    | mixin k => exact ⟨_, .leaf rfl rfl⟩
    | yield p => exact ⟨_, .leaf rfl rfl⟩
    | text v p => exact ⟨_, .leaf rfl rfl⟩
  | frame F inner ns ihi ih =>
    simp only [dependenciesAll_cons, List.forall_mem_append] at h
    obtain ⟨build, hns⟩ := ih h.2
    suffices hone : ∃ build, Rebuilds [framed F inner] build from ⟨_, hone.choose_spec.cons hns⟩
    cases F with
    | includes f d q p =>
      simp only [framed, dependencies_includes_some, List.forall_mem_append] at h
      obtain ⟨build, hi⟩ := ihi h.1.2
      obtain ⟨hf, rfl⟩ := h.1.1 ⟨true, f, d, p⟩ (by simp [unfolded])
      exact ⟨_, hi.reference ⟨true, f, none, p⟩
        (g := fun f d ms ↦ .includes f d (some ⟨ms, q⟩) p)
        (by simp [framed, populateAll, populate, populateBody, hf, fill])
        (by simp [framed, unfolded]) (by simp)⟩
    | _ =>
      obtain ⟨build, hi⟩ := ihi h.1
      exact ⟨_, hi.framed rfl⟩
  | block k inner ns ihi ih =>
    simp only [dependenciesAll_cons, dependencies_block, List.forall_mem_append] at h
    obtain ⟨build, hi⟩ := ihi h.1
    obtain ⟨build', hns⟩ := ih h.2
    exact ⟨_, (hi.block k).cons hns⟩

theorem populate_eq (n : Node) :
    populate caps openDocument opened n =
      populateAll caps openDocument opened [n] >>= fun ms ↦ pure (ms.headD n) := by
  simp [populateAll]

/-- Loading a document whose references are all pending fetches them in order. -/
theorem exists_populate_eq {n : Node} (h : ∀ r ∈ n.dependencies, r.IsPending) :
    ∃ build : List Dependency → Node,
      (∀ caps openDocument opened, populate caps openDocument opened n =
        n.dependencies.mapM (fill caps openDocument opened) >>= fun rs ↦ pure (build rs)) ∧
      ∀ rs, List.Forall₂ Fits n.dependencies rs →
        (build rs).dependencies = rs.flatMap unfolded := by
  obtain ⟨build, hb⟩ : ∃ build, Rebuilds [n] build := exists_rebuilds (by simpa using h)
  refine ⟨fun rs ↦ (build rs).headD n, fun caps openDocument opened ↦ ?_, fun rs hrs ↦ ?_⟩
  · rw [populate_eq, hb.populate_eq, dependenciesAll_singleton]
    simp
  · rw [← dependenciesAll_singleton] at hrs
    obtain ⟨m, hm⟩ := List.length_eq_one_iff.mp (hb.length_eq rs hrs)
    simp [← hb.dependencies_eq rs hrs, hm]

/-! ### Loading again -/

theorem populateDocument_eq_pure {d : Option Node}
    (h : populateAll caps openDocument opened d.toList = pure d.toList) :
    populateDocument caps openDocument opened d = pure d := by
  cases d with
  | none => rfl
  | some d =>
    rw [Option.toList_some] at h
    simp [populateDocument, populate_eq d, h]

/-- Loading nodes whose references are all loaded. -/
theorem populateAll_eq_pure {ns : List Node} (h : ∀ r ∈ dependenciesAll ns, r.file.isLoaded) :
    populateAll caps openDocument opened ns = pure ns := by
  induction ns using document_induction with
  | nil => rfl
  | cons n ns ihn ih =>
    simp only [dependenciesAll_cons, List.forall_mem_append] at h
    rw [populateAll_cons, ihn (by simpa using h.1), ih h.2]
    simp
  | leaf n hn ihd =>
    cases n, hn using leaf_cases with
    | inherits f d p =>
      simp only [dependenciesAll_singleton, dependencies_inherits, unfolded, List.forall_mem_cons]
        at h
      have hd : populateDocument caps openDocument opened d = pure d :=
        populateDocument_eq_pure (ihd h.2)
      simp [populateAll, populate, h.1, hd]
    | includes f d p =>
      simp only [dependenciesAll_singleton, dependencies_includes_none, unfolded,
        List.forall_mem_cons] at h
      have hd : populateDocument caps openDocument opened d = pure d :=
        populateDocument_eq_pure (ihd h.2)
      simp [populateAll, populate, populateBody, h.1, hd]
    | includesRaw f d us p =>
      simp only [dependenciesAll_singleton, dependencies_includesRaw, unfolded,
        List.forall_mem_cons] at h
      have hd : populateDocument caps openDocument opened d = pure d :=
        populateDocument_eq_pure (ihd h.2)
      simp [populateAll, populate, h.1, hd]
    | _ => simp [populateAll, populate, populateBody]
  | frame F inner ihd ih =>
    rw [dependenciesAll_singleton, dependencies_framed, List.forall_mem_append,
      List.forall_mem_append] at h
    have hinner := ih h.2.2
    cases F with
    | includes f d q p =>
      have hf : f.isLoaded := h.1 ⟨true, f, d, p⟩ (by simp [framed, dependency?])
      have hd : populateDocument caps openDocument opened d = pure d :=
        populateDocument_eq_pure (ihd h.2.1)
      simp [framed, populateAll, populate, populateBody, hf, hd, hinner]
    | _ => simp [framed, populateAll, populate, populateBody, hinner]
  | block k inner ih =>
    simp [populateAll, populate, ih (by simpa using h)]

/-- Loading a loaded document again does nothing. -/
theorem populate_eq_pure {n : Node} (h : ∀ r ∈ n.dependencies, r.file.isLoaded) :
    populate caps openDocument opened n = pure n := by
  rw [populate_eq, populateAll_eq_pure (by simpa using h)]
  simp

end Node
end Templating
