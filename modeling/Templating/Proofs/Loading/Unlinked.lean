import Templating.Proofs.Filter.Rendering
import Templating.Proofs.Loading.Composition

/-!
# Loaded documents are not linked

The parser notes nothing on a named block that linking would, and loading and rendering leave named
blocks as they are. So what is linked after them has no numbers and no lineages noted
(`Loads.unlinked_render`).
-/

namespace Templating

open Node

/-! ### Loading -/

/-- The parser leaves named blocks alone. -/
def Capabilities.ParsesUnlinked (caps : Capabilities) : Prop :=
  ∀ ls src n, caps.parse ls src = .ok n → n.Unlinked

theorem Capabilities.parsesUnlinked_standard (read : Path → Except String (List UInt8))
    (base : Option Path) : (Capabilities.standard read base).ParsesUnlinked :=
  fun _ _ _ h ↦ Source.unlinked_of_documentOf h

/-- All documents that are opened are unlinked. -/
def Opener.OpensUnlinked (openDocument : Opener) : Prop :=
  ∀ opened text file n, (openDocument opened text file).Yields n → n.Unlinked

section

variable {caps : Capabilities} {openDocument : Opener} {opened : List Path}

theorem unlinkedAll_of_fetch (hopen : openDocument.OpensUnlinked) {asTemplate : Bool}
    {file f : Reference} {d : Option Node} {site : Position}
    (h : (fetch caps openDocument opened asTemplate file site).Yields (f, d)) :
    UnlinkedAll d.toList := by
  cases asTemplate with
  | true =>
    obtain ⟨target, raw, n, -, -, -, hn, -, rfl⟩ := fetch_template_yields.mp h
    exact unlinkedAll_singleton.mpr (hopen _ _ _ n hn)
  | false =>
    obtain ⟨target, raw, -, -, -, rfl⟩ := fetch_raw_yields.mp h
    exact unlinkedAll_nil

/-- Loading the references of a leaf. -/
theorem unlinked_of_populate_leaf (hopen : openDocument.OpensUnlinked) {n n' : Node}
    (hn : n.isLeaf)
    (hdocument : ∀ d, (populateDocument caps openDocument opened n.document?).Yields d →
      UnlinkedAll d.toList)
    (h : (populate caps openDocument opened n).Yields n') : n'.Unlinked := by
  cases n, hn using leaf_cases with
  | inherits f d p =>
    rw [populate] at h
    split at h <;> simp only [Load.bind_yields, Load.pure_yields] at h
    · obtain ⟨d', hd, rfl⟩ := h
      exact (unlinked_leaf rfl).mpr (hdocument d' hd)
    · obtain ⟨⟨f', d'⟩, hfetch, rfl⟩ := h
      exact (unlinked_leaf rfl).mpr (unlinkedAll_of_fetch hopen hfetch)
  | includes f d p =>
    rw [populate] at h
    split at h <;> simp only [populateBody, Load.bind_yields, Load.pure_yields] at h
    · obtain ⟨d', hd, _, rfl, rfl⟩ := h
      exact (unlinked_leaf rfl).mpr (hdocument d' hd)
    · obtain ⟨⟨f', d'⟩, hfetch, _, rfl, rfl⟩ := h
      exact (unlinked_leaf rfl).mpr (unlinkedAll_of_fetch hopen hfetch)
  | includesRaw f d us p =>
    rw [populate] at h
    split at h <;> simp only [Load.bind_yields, Load.pure_yields] at h
    · obtain ⟨d', hd, rfl⟩ := h
      exact (unlinked_leaf rfl).mpr (hdocument d' hd)
    · obtain ⟨_, -, d', hd, rfl⟩ := h
      exact (unlinked_leaf rfl).mpr (hdocument d' hd)
  | mixin k =>
    simp only [populate, populateBody, Load.bind_yields, Load.pure_yields] at h
    obtain ⟨_, rfl, rfl⟩ := h
    exact (unlinked_leaf rfl).mpr unlinkedAll_nil
  | yield p =>
    obtain rfl := Load.pure_yields.mp h
    exact (unlinked_leaf rfl).mpr unlinkedAll_nil
  | text v p =>
    obtain rfl := Load.pure_yields.mp h
    exact (unlinked_leaf rfl).mpr unlinkedAll_nil

/-- Loading the references of a frame. -/
theorem unlinked_of_populate_framed (hopen : openDocument.OpensUnlinked) {F : Frame}
    {inner : List Node} {n' : Node}
    (hdocument : ∀ d, (populateDocument caps openDocument opened
      (framed F inner).document?).Yields d → UnlinkedAll d.toList)
    (hinner : ∀ ns, (populateAll caps openDocument opened inner).Yields ns → UnlinkedAll ns)
    (h : (populate caps openDocument opened (framed F inner)).Yields n') : n'.Unlinked := by
  cases F with
  | includes f d q p =>
    rw [framed, populate] at h
    split at h <;> simp only [populateBody, Load.bind_yields, Load.pure_yields] at h
    · obtain ⟨d', hd, _, ⟨ns, hns, rfl⟩, rfl⟩ := h
      exact (unlinked_framed (F := .includes f d' q p)).mpr ⟨hdocument d' hd, hinner ns hns⟩
    · obtain ⟨⟨f', d'⟩, hfetch, _, ⟨ns, hns, rfl⟩, rfl⟩ := h
      exact (unlinked_framed (F := .includes f' d' q p)).mpr
        ⟨unlinkedAll_of_fetch hopen hfetch, hinner ns hns⟩
  | group p =>
    simp only [framed, populate, Load.bind_yields, Load.pure_yields] at h
    obtain ⟨ns, hns, rfl⟩ := h
    exact (unlinked_framed (F := .group p)).mpr ⟨unlinkedAll_nil, hinner ns hns⟩
  | mixin k p =>
    simp only [framed, populate, populateBody, Load.bind_yields, Load.pure_yields] at h
    obtain ⟨_, ⟨ns, hns, rfl⟩, rfl⟩ := h
    exact (unlinked_framed (F := .mixin k p)).mpr ⟨unlinkedAll_nil, hinner ns hns⟩
  | filter u p =>
    simp only [framed, populate, Load.bind_yields, Load.pure_yields] at h
    obtain ⟨ns, hns, rfl⟩ := h
    exact (unlinked_framed (F := .filter u p)).mpr ⟨unlinkedAll_nil, hinner ns hns⟩
  | tag k p =>
    simp only [framed, populate, Load.bind_yields, Load.pure_yields] at h
    obtain ⟨ns, hns, rfl⟩ := h
    exact (unlinked_framed (F := .tag k p)).mpr ⟨unlinkedAll_nil, hinner ns hns⟩

theorem populateAll_toList {d d' : Option Node}
    (h : (populateDocument caps openDocument opened d).Yields d') :
    (populateAll caps openDocument opened d.toList).Yields d'.toList := by
  cases d with
  | none =>
    obtain rfl := Load.pure_yields.mp h
    exact Load.pure_yields.mpr rfl
  | some d =>
    simp only [populateDocument, Load.bind_yields, Load.pure_yields] at h
    obtain ⟨n, hn, rfl⟩ := h
    simp only [Option.toList_some, populateAll, Load.bind_yields, Load.pure_yields]
    exact ⟨n, hn, [], rfl, rfl⟩

/-- Loading the references of nodes leaves them unlinked. -/
theorem unlinkedAll_of_populateAll (hopen : openDocument.OpensUnlinked) {ns ns' : List Node}
    (hns : UnlinkedAll ns) (h : (populateAll caps openDocument opened ns).Yields ns') :
    UnlinkedAll ns' := by
  induction ns using document_induction generalizing ns' with
  | nil =>
    obtain rfl := Load.pure_yields.mp h
    exact hns
  | cons n ns ihn ih =>
    rw [unlinkedAll_cons, ← unlinkedAll_singleton] at hns
    rw [populateAll_cons] at h
    simp only [Load.bind_yields, Load.pure_yields] at h
    obtain ⟨ms, hms, ms', hms', rfl⟩ := h
    exact unlinkedAll_append.mpr ⟨ihn hns.1 hms, ih hns.2 hms'⟩
  | leaf n hn ihd =>
    rw [unlinkedAll_singleton, unlinked_leaf hn] at hns
    simp only [populateAll, Load.bind_yields, Load.pure_yields] at h
    obtain ⟨n', hn', _, rfl, rfl⟩ := h
    exact unlinkedAll_singleton.mpr (unlinked_of_populate_leaf hopen hn
      (fun d hd ↦ ihd hns (populateAll_toList hd)) hn')
  | frame F inner ihd ih =>
    rw [unlinkedAll_singleton, unlinked_framed] at hns
    simp only [populateAll, Load.bind_yields, Load.pure_yields] at h
    obtain ⟨n', hn', _, rfl, rfl⟩ := h
    exact unlinkedAll_singleton.mpr (unlinked_of_populate_framed hopen
      (fun d hd ↦ ihd hns.1 (populateAll_toList hd)) (fun ns hi ↦ ih hns.2 hi) hn')
  | block k inner ih =>
    rw [unlinkedAll_singleton, unlinked_block] at hns
    simp only [populateAll, populate, Load.bind_yields, Load.pure_yields] at h
    obtain ⟨_, ⟨inner', hi, rfl⟩, _, rfl, rfl⟩ := h
    exact unlinkedAll_singleton.mpr (unlinked_block.mpr ⟨hns.1, ih hns.2 hi⟩)

theorem unlinked_of_populate (hopen : openDocument.OpensUnlinked) {n n' : Node} (hn : n.Unlinked)
    (h : (populate caps openDocument opened n).Yields n') : n'.Unlinked := by
  have hall : (populateAll caps openDocument opened [n]).Yields [n'] := by
    simp only [populateAll, Load.bind_yields, Load.pure_yields]
    exact ⟨n', h, [], rfl, rfl⟩
  exact unlinkedAll_singleton.mp
    (unlinkedAll_of_populateAll hopen (unlinkedAll_singleton.mpr hn) hall)

/-- An opened document is unlinked, and so are the documents loaded for it. -/
theorem unlinked_of_openText (hcaps : caps.ParsesUnlinked) {depth : Nat} {src : Source} {n : Node}
    (h : (openText caps depth opened src).Yields n) : n.Unlinked := by
  induction depth generalizing opened src n with
  | zero => exact absurd h openText_zero_not_yields
  | succ depth ih =>
    simp only [openText, Load.bind_yields, Load.ofExcept_yields] at h
    obtain ⟨ls, -, n₀, hn₀, h⟩ := h
    exact unlinked_of_populate (fun _ _ _ _ h ↦ ih h) (hcaps ls src n₀ hn₀) h

/-- A loaded document is unlinked. -/
theorem Loads.unlinked (hcaps : caps.ParsesUnlinked) {depth : Nat} {n : Node}
    (h : Loads caps depth n) : n.Unlinked := by
  obtain ⟨opened, src, h⟩ := h.exists_openText
  exact unlinked_of_openText hcaps h

end

/-! ### Rendering -/

/-- Rendering leaves named blocks as they are. -/
theorem Node.unlinkedAll_of_rendered {s : FilterSet} {ns ns' : List Node} (h : s.Rendered ns ns') :
    UnlinkedAll ns → UnlinkedAll ns' := by
  induction h with
  | nil => exact id
  | @cons n n' ns ns' _ _ ihn ih =>
    rw [unlinkedAll_cons, unlinkedAll_cons, ← unlinkedAll_singleton, ← unlinkedAll_singleton]
    exact And.imp ihn ih
  | text => exact fun _ ↦ unlinkedAll_singleton.mpr ((unlinked_leaf rfl).mpr unlinkedAll_nil)
  | leaf hn _ _ ihd =>
    rw [unlinkedAll_singleton, unlinked_leaf hn, unlinkedAll_singleton]
    exact fun h ↦ .setDocument_leaf hn (ihd h)
  | frame _ _ _ ihd ih =>
    rw [unlinkedAll_singleton, unlinked_framed, unlinkedAll_singleton]
    exact fun h ↦ .setDocument_framed (ihd h.1) (ih h.2)
  | block _ ih =>
    rw [unlinkedAll_singleton, unlinked_block, unlinkedAll_singleton, unlinked_block]
    exact And.imp_right ih

/-- A rendered document is unlinked if the document was. -/
theorem FilterSet.unlinked_render {s : FilterSet} {n n' : Node} (hn : n.Unlinked)
    (h : (s.render n).result = .ok n') : n'.Unlinked :=
  unlinkedAll_singleton.mp
    (unlinkedAll_of_rendered (rendered_of_render h) (unlinkedAll_singleton.mpr hn))

/-- What a compilation links is unlinked, whatever files it reads and filters it has. -/
theorem Loads.unlinked_render {read : Path → Except String (List UInt8)} {base : Option Path}
    {s : FilterSet} {depth : Nat} {n n' : Node} (h : Loads (.standard read base) depth n)
    (hn' : (s.render n).result = .ok n') : n.Unlinked ∧ n'.Unlinked := by
  have hn := h.unlinked (Capabilities.parsesUnlinked_standard read base)
  exact ⟨hn, FilterSet.unlinked_render hn hn'⟩

end Templating
