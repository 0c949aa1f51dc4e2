import Templating.Proofs.Linking.References
import Templating.Proofs.Node.Documents
import Templating.Proofs.Node.Pieces

/-!
# Linking is substitution

A document without inheritance is linked by putting texts and documents in the place of references,
and content into yield points: what it reads as stays (`link_substitutes`). Nested includes, yield
points in content, and yield points that are filled further out need no special treatment. What
has to be known is that content of an include site meets a yield point; whether one is left after
expansion does not depend on the numbers of blocks.
-/

namespace Templating

open Node

namespace Node

/-- A reference has been loaded. A loaded document is a group. -/
def isLoaded : Node → Bool
  | .inherits _ d _ => d.any isGroup
  | .includes _ d _ _ => d.any isGroup
  | .includesRaw f _ _ _ => f.isLoaded
  | _ => true

/-- The content of an include site meets a yield point, once the document is linked. -/
def meetsYield : Node → Bool
  | .includes _ (some d) (some ⟨_ :: _, _⟩) _ =>
    match link d with
    | .ok l => hasYieldAll l.root.nodes
    | .error _ => true
  | _ => true

/-- Loaded nodes without inheritance, in which the content of every include site meets a yield
point. -/
structure Composable (ns : List Node) : Prop where
  loaded : ∀ m ∈ listingAll ns, m.isLoaded
  noInherits : ∀ m ∈ listingAll ns, m.isInherits = false
  yields : ∀ m ∈ listingAll ns, m.meetsYield

instance (ns : List Node) : Decidable (Composable ns) :=
  decidable_of_iff ((∀ m ∈ listingAll ns, m.isLoaded) ∧
      (∀ m ∈ listingAll ns, m.isInherits = false) ∧ ∀ m ∈ listingAll ns, m.meetsYield)
    ⟨fun h ↦ ⟨h.1, h.2.1, h.2.2⟩, fun h ↦ ⟨h.loaded, h.noInherits, h.yields⟩⟩

theorem hasYieldAll_of_meetsYield {f : Reference} {d : Node} {ns : List Node} {q p : Position}
    (h : (Node.includes f (some d) (some ⟨ns, q⟩) p).meetsYield) (hne : ns ≠ []) {l : Linked}
    (hl : link d = .ok l) : hasYieldAll l.root.nodes := by
  cases ns with
  | nil => exact absurd rfl hne
  | cons n ns => simpa only [meetsYield, hl] using h

namespace Composable

variable {ns ms : List Node}

theorem subset (h : Composable ns) (hs : ∀ m ∈ listingAll ms, m ∈ listingAll ns) :
    Composable ms where
  loaded m hm := h.loaded m (hs m hm)
  noInherits m hm := h.noInherits m (hs m hm)
  yields m hm := h.yields m (hs m hm)

theorem document {n : Node} (h : Composable [n]) : Composable n.document?.toList :=
  h.subset fun m hm ↦ by simpa using listingAll_document_subset n hm

theorem inner {F : Frame} (h : Composable [framed F ns]) : Composable ns :=
  h.subset fun m hm ↦ by cases F <;> simp [framed, listing, listingBody, hm]

end Composable

end Node

/-- Nodes can be expanded to nodes that read the same, however many numbers were drawn before.
`y` tells whether yield points are left. -/
def Expands (y : Bool) (ns : List Node) : Prop :=
  ∀ s, ∃ ns' s', expandAll ns s = .ok (ns', s') ∧ (ns' = [] ↔ ns = []) ∧
    hasYieldAll ns' = y ∧ piecesAll ns' = piecesAll ns

/-- A document can be linked to one that reads the same and does not inherit, however many numbers
were drawn before. `y` tells whether yield points are left. -/
def Links (y : Bool) (d : Node) : Prop :=
  ∀ s, ∃ l s', linkNode d s = .ok (l, s') ∧ l.inherits = false ∧ Standalone l.root.nodes ∧
    hasYieldAll l.root.nodes = y ∧ piecesAll l.root.nodes = pieces d

theorem expandAll_singleton_eq_ok {n : Node} {s : Nat} {r : List Node × Nat} :
    expandAll [n] s = .ok r ↔ ∃ n' s', expand n s = .ok (n', s') ∧ ([n'], s') = r := by
  simp only [expandAll, Link.bind_eq_ok, Link.pure_eq_ok]
  constructor
  · rintro ⟨n', s', hn, _, _, he, rfl⟩
    cases he
    exact ⟨n', s', hn, rfl⟩
  · rintro ⟨n', s', hn, rfl⟩
    exact ⟨n', s', hn, [], s', rfl, rfl⟩

/-- Every node is expanded to one node. -/
theorem expandAll_eq_nil_iff {ns ns' : List Node} {s s' : Nat}
    (h : expandAll ns s = .ok (ns', s')) : ns' = [] ↔ ns = [] := by
  cases ns with
  | nil =>
    cases h
    exact Iff.rfl
  | cons n ns =>
    simp only [expandAll, Link.bind_eq_ok, Link.pure_eq_ok] at h
    obtain ⟨_, _, _, _, _, _, he⟩ := h
    cases he
    simp

namespace Expands

variable {y : Bool} {ns : List Node}

/-- An expansion of a single node. -/
theorem of_expand {n : Node}
    (h : ∀ s, ∃ n' s', expand n s = .ok (n', s') ∧ hasYield n' = y ∧ pieces n' = pieces n) :
    Expands y [n] := by
  intro s
  obtain ⟨n', s', hn, hy, hp⟩ := h s
  exact ⟨[n'], s', expandAll_singleton_eq_ok.mpr ⟨n', s', hn, rfl⟩, by simp, by simpa using hy,
    by simpa using hp⟩

theorem nil : Expands false [] := fun s ↦ ⟨[], s, rfl, Iff.rfl, rfl, rfl⟩

theorem cons {z : Bool} {n : Node} (hn : Expands y [n]) (hns : Expands z ns) :
    Expands (y || z) (n :: ns) := by
  intro s
  obtain ⟨_, s₁, hexp, -, hyn, hpn⟩ := hn s
  obtain ⟨n', _, hexp, he⟩ := expandAll_singleton_eq_ok.mp hexp
  cases he
  obtain ⟨ns', s₂, hexps, -, hyns, hpns⟩ := hns s₁
  refine ⟨n' :: ns', s₂, ?_, by simp, ?_, ?_⟩
  · simp only [expandAll, Link.bind_eq_ok, Link.pure_eq_ok]
    exact ⟨n', s₁, hexp, ns', s₂, hexps, rfl⟩
  · simp_all
  · simp_all

theorem framed {F : Frame} (hF : (framed F ns).isInclusion = false) (h : Expands y ns) :
    Expands y [.framed F ns] := by
  refine of_expand fun s ↦ ?_
  obtain ⟨ns', s', hexp, hnil, hy, hp⟩ := h s
  refine ⟨.framed F ns', s', ?_, by simpa using hy, pieces_framed_congr hnil hp F⟩
  cases F with
  | includes => cases hF
  | mixin k p =>
    simp only [Node.framed, expand, expandBody, Link.bind_eq_ok, Link.pure_eq_ok]
    exact ⟨_, s', ⟨ns', s', hexp, rfl⟩, rfl⟩
  | _ =>
    simp only [Node.framed, expand, Link.bind_eq_ok, Link.pure_eq_ok]
    exact ⟨ns', s', hexp, rfl⟩

theorem block (h : Expands y ns) (k : BlockHead) : Expands y [.block k ns] := by
  refine of_expand fun s ↦ ?_
  obtain ⟨ns', s', hexp, -, hy, hp⟩ := h s
  refine ⟨.block k ns', s', ?_, by simpa using hy, by simpa using hp⟩
  simp only [expand, Link.bind_eq_ok, Link.pure_eq_ok]
  exact ⟨ns', s', hexp, rfl⟩

/-- A group that is expanded has its nodes expanded. -/
theorem of_group {p : Position} (h : Expands y [.group ⟨ns, p⟩]) : Expands y ns := by
  intro s
  obtain ⟨_, _, hexp, -, hy, hp⟩ := h s
  obtain ⟨_, _, hexp, he⟩ := expandAll_singleton_eq_ok.mp hexp
  cases he
  simp only [expand, Link.bind_eq_ok, Link.pure_eq_ok] at hexp
  obtain ⟨ns', _, hns, he⟩ := hexp
  cases he
  simp only [piecesAll_cons, hasYieldAll_cons, pieces_group, piecesAll_nil, hasYieldAll_nil,
    List.append_nil, Bool.or_false] at hy hp
  exact ⟨ns', _, hns, expandAll_eq_nil_iff hns, hy, hp⟩

/-- A document whose nodes are expanded is linked. -/
theorem links {d : Node} (hd : d.isGroup) (hno : ∀ m ∈ listingAll [d], m.isInherits = false)
    (h : Expands y [d]) : Links y d := by
  intro s
  obtain ⟨⟨ns, p⟩, rfl⟩ := exists_group_of_isGroup hd
  have hns : ∀ m ∈ listingAll ns, m.isInherits = false :=
    fun m hm ↦ hno m (by simp [listing, hm])
  have hfirst := firstInheritAll_eq_none hns
  obtain ⟨ns', s', hexp, -, hy, hp⟩ := h.of_group s
  have hown : OfKinds (OwnKinds fun _ ↦ True) ns' :=
    (linkCases_ofKinds trivial trivial).expandAll ns hexp hfirst fun _ _ ↦ trivial
  have hhead : ∀ n ∈ ns.head?, n.isInherits = false :=
    fun n hn ↦ hns n (mem_listingAll_of_mem (List.mem_of_mem_head? hn))
  exact ⟨_, _, (linkNode_group_eq_ok hhead).mpr
      ⟨hfirst, ns', s', hexp, rfl, rfl⟩, rfl,
    OfKinds.standalone (ofKinds_declareAll.mpr (hown.imp fun _ hk ↦ hk.2)),
    (hasYieldAll_declareAll ns' _).trans hy, (piecesAll_declareAll ns' _).trans hp⟩

/-- A leaf that refers to no file stays. -/
theorem leaf {n : Node} (hn : n.isLeaf) (hi : n.isInclusion = false) :
    Expands (hasYield n) [n] := by
  refine of_expand fun s ↦ ⟨n, s, ?_, rfl, rfl⟩
  cases n, hn using leaf_cases with
  | includes => cases hi
  | includesRaw => cases hi
  | _ => rfl

/-- The text of another file comes without carriage returns. -/
theorem includesRaw {f : Reference} (hf : f.isLoaded) (d : Option Node) (us : List FilterUse)
    (p : Position) : Expands false [.includesRaw f d us p] := by
  obtain ⟨t, ht⟩ := Option.isSome_iff_exists.mp hf
  exact of_expand fun s ↦ ⟨.text (withoutReturns t) p, s, by simp [expand, ht]; rfl, rfl,
    by simp [pieces, ht]⟩

/-- An include without content is replaced by its document. -/
theorem includes {d : Node} (h : Links y d) (f : Reference) {b : Option Block}
    (hb : ∀ c ∈ b, c.nodes = []) (p : Position) : Expands y [.includes f (some d) b p] := by
  refine of_expand fun s ↦ ?_
  obtain ⟨l, s', hl, hinh, -, hy, hp⟩ := h s
  refine ⟨.group l.root, s', ?_, hy, ?_⟩
  · cases b with
    | none =>
      simp only [expand, expandBody, Link.bind_eq_ok, Link.pure_eq_ok]
      exact ⟨none, s, rfl, l, s', hl, by simp [hinh, Block.takeIn]⟩
    | some c =>
      obtain ⟨ns, q⟩ := c
      obtain rfl : ns = [] := hb _ rfl
      simp only [expand, expandBody, Link.bind_eq_ok, Link.pure_eq_ok]
      exact ⟨some ⟨[], q⟩, s, ⟨[], s, rfl, rfl⟩, l, s', hl, by simp [hinh, Block.takeIn]⟩
  · cases b with
    | none => exact hp
    | some c =>
      obtain ⟨ns, q⟩ := c
      obtain rfl : ns = [] := hb _ rfl
      exact hp

/-- An include with content is replaced by its document, with the content at its yield points. -/
theorem includesWith {d : Node} (h : Expands y ns) (hne : ns ≠ []) (hd : Links true d)
    (f : Reference) (q p : Position) : Expands y [.includes f (some d) (some ⟨ns, q⟩) p] := by
  refine of_expand fun s ↦ ?_
  obtain ⟨ns', s₁, hexp, hnil, hy, hp⟩ := h s
  obtain ⟨l, s₂, hl, hinh, hstand, hyield, hpd⟩ := hd s₁
  have hempty : ns'.isEmpty = false := by simpa [hnil] using hne
  have htake : l.root.takeIn (some ⟨ns', q⟩) =
      ⟨fillYieldsAll ⟨ns', q⟩ l.root.nodes, l.root.position⟩ := by
    simp [Block.takeIn, hempty, hyield]
  refine ⟨.group ⟨fillYieldsAll ⟨ns', q⟩ l.root.nodes, l.root.position⟩, s₂, ?_, ?_, ?_⟩
  · simp only [expand, expandBody, Link.bind_eq_ok, Link.pure_eq_ok]
    exact ⟨some ⟨ns', q⟩, s₁, ⟨ns', s₁, hexp, rfl⟩, l, s₂, hl, by simp [hinh, htake]⟩
  · simp [hasYield, hasYieldAll_fillYieldsAll, hyield, hy]
  · rw [pieces_group, piecesAll_fillYieldsAll _ hstand, hpd, hp, pieces_includes_of_ne_nil hne]
    rfl

end Expands

/-- Composable nodes can be expanded. -/
theorem Node.Composable.expands {ns : List Node} (h : Composable ns) : ∃ y, Expands y ns := by
  induction ns using document_induction with
  | nil => exact ⟨false, .nil⟩
  | cons n ns ihn ih =>
    obtain ⟨y, hn⟩ := ihn (h.subset (by simp +contextual))
    obtain ⟨z, hns⟩ := ih (h.subset (by simp +contextual))
    exact ⟨y || z, hn.cons hns⟩
  | leaf n hn ihd =>
    cases n, hn using leaf_cases with
    | includesRaw f d us p =>
      exact ⟨false, .includesRaw (h.loaded (.includesRaw f d us p) (by simp [listing])) d us p⟩
    | includes f d p =>
      have hloaded := h.loaded (.includes f d none p) (by simp [listing])
      cases d with
      | none => cases hloaded
      | some d =>
        obtain ⟨y, hd⟩ := ihd h.document
        exact ⟨y, .includes (hd.links hloaded h.document.noInherits) f (by simp) p⟩
    | inherits f d p => cases h.noInherits (.inherits f d p) (by simp [listing])
    | mixin k => exact ⟨_, .leaf rfl rfl⟩
    | yield p => exact ⟨_, .leaf rfl rfl⟩
    | text v p => exact ⟨_, .leaf rfl rfl⟩
  | frame F inner ihd ih =>
    obtain ⟨y, hinner⟩ := ih h.inner
    cases F with
    | includes f d q p =>
      have hloaded := h.loaded (framed (.includes f d q p) inner) (by simp [framed, listing])
      cases d with
      | none => cases hloaded
      | some d =>
        obtain ⟨z, hd⟩ := ihd h.document
        have hlinks := hd.links hloaded h.document.noInherits
        by_cases hne : inner = []
        · exact ⟨z, .includes hlinks f (by simp [hne]) p⟩
        · obtain ⟨l, _, hl, -, -, hz, -⟩ := hlinks 0
          have hmeets := h.yields (framed (.includes f (some d) q p) inner)
            (by simp [framed, listing])
          have hyield := hasYieldAll_of_meetsYield hmeets hne (link_eq_ok.mpr ⟨_, hl⟩)
          rw [hyield] at hz
          exact ⟨y, hinner.includesWith hne (hz ▸ hlinks) f q p⟩
    | _ => exact ⟨y, hinner.framed rfl⟩
  | block k inner ih =>
    obtain ⟨y, hinner⟩ := ih (h.subset (by simp +contextual))
    exact ⟨y, hinner.block k⟩

/-- A loaded document without inheritance, in which the content of every include site meets a
yield point, is linked to a document that reads the same. So it shows the texts that it reads as. -/
theorem link_substitutes {d : Node} (hd : d.isGroup) (h : Composable [d]) :
    ∃ l, link d = .ok l ∧ piecesAll l.root.nodes = pieces d ∧
      shownTextAll l.root.nodes = Piece.shown (pieces d) := by
  obtain ⟨y, hexp⟩ := h.expands
  obtain ⟨l, _, hl, -, hstand, -, hp⟩ := hexp.links hd h.noInherits 0
  refine ⟨l, link_eq_ok.mpr ⟨_, hl⟩, hp, ?_⟩
  rw [shownTextAll_eq_shown hstand, hp]

/-- A document that includes a letter, which includes a frame for what it quotes. The content of
the document goes through the letter into the frame. -/
def letterDocument : Node :=
  let quotes : Node := .group ⟨[.text "<" default, .yield default, .text ">" default], default⟩
  let letter : Node := .group ⟨[.includes (.unloaded "quotes" none) (some quotes)
      (some ⟨[.text "dear " default, .yield default], default⟩) default,
    .includesRaw { Reference.unloaded "note" none with text := some "!\r\n" } none [] default],
    default⟩
  .group ⟨[.mixin ⟨"m", none, false, default⟩ (some ⟨[.text "unseen" default], default⟩),
    .includes (.unloaded "letter" none) (some letter)
      (some ⟨[.block ⟨"name", .replace, default, none, none, false⟩ [.text "you" default]],
        default⟩) default,
    .yield default], default⟩

theorem link_substitutes_letterDocument :
    letterDocument.isGroup ∧ Composable [letterDocument] ∧
      ∃ l, link letterDocument = .ok l ∧
        piecesAll l.root.nodes = [.text "<", .text "dear ", .text "you", .text ">", .text "!\n",
          .hole] ∧
        shownTextAll l.root.nodes = "<dear you>!\n" := by
  have hgroup : letterDocument.isGroup := rfl
  have hcomposable : Composable [letterDocument] := by decide +kernel
  exact ⟨hgroup, hcomposable, link_substitutes hgroup hcomposable⟩

end Templating
