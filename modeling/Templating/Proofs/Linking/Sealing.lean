import Templating.Proofs.Linking.PlacedText
import Templating.Proofs.Linking.Shifting
import Templating.Proofs.Linking.Sites
import Templating.Proofs.Linking.Surroundings

/-!
# Included documents that inherit

A document that inherits from another one is included without its named blocks. The only blocks in
the tree that takes the place of the include are those of the include site's content, so nothing of
the included document is in the registry of the including one, and no override applies to it
(`included_chain_sealed`). What an override can do is replace the content of a block of the
including document, with the whole tree in it.
-/

namespace Templating

open Node

/-- The named blocks in the content of an include site. -/
def contentBlocks (content : Option Block) : List NamedBlock :=
  (content.map fun c ↦ blocksAll c.nodes).getD []

namespace Node

/-! ### Outside the named blocks -/

/-- What is left of nodes outside their named blocks. These are there without their content, their
numbers and their marks. -/
def outsideAll (ns : List Node) : List Node := mapBlocksAll (fun h _ ↦ .block h.bare []) ns

theorem outsideAll_bareAll (ns : List Node) : outsideAll (bareAll ns) = outsideAll ns :=
  mapBlocksAll_mapBlocksAll fun _ _ _ ↦ rfl

/-- Numbers and marks do not matter outside the named blocks. -/
theorem outsideAll_congr {ns ms : List Node} (h : bareAll ns = bareAll ms) :
    outsideAll ns = outsideAll ms := by
  rw [← outsideAll_bareAll ns, h, outsideAll_bareAll]

/-- An override does not reach outside the named blocks. -/
theorem outsideAll_amendAll (targets : List BlockId) (mode : Mode) (content ns : List Node) :
    outsideAll (amendAll targets mode content ns) = outsideAll ns := by
  rw [amendAll_eq_overrideAll]
  exact mapBlocksAll_mapBlocksAll fun _ _ _ ↦ rfl

end Node

/-- A sequence whose named blocks are rebuilt. -/
def Block.mapBlocks (f : BlockHead → List Node → Node) (b : Block) : Block :=
  { b with nodes := mapBlocksAll f b.nodes }

/-- What is left of a sequence outside its named blocks. -/
def Block.outside (b : Block) : Block := { b with nodes := outsideAll b.nodes }

namespace Node

/-! ### Content in a document without named blocks -/

theorem isEmpty_mapBlocksAll (f : BlockHead → List Node → Node) (ns : List Node) :
    (mapBlocksAll f ns).isEmpty = ns.isEmpty := by
  cases ns <;> rfl

/-- A pass over blocks, behind the yield points of a document that has none itself. -/
theorem mapBlocksAll_fillYieldsAll {ns : List Node} (h : blocksAll ns = [])
    (f : BlockHead → List Node → Node) (c : Block) :
    mapBlocksAll f (fillYieldsAll c ns) = fillYieldsAll (c.mapBlocks f) ns := by
  induction ns using forest_induction with
  | nil => rfl
  | leaf n ns hn ih =>
    rw [blocksAll_cons, blocks_leaf hn, List.nil_append] at h
    rw [fillYieldsAll, fillYieldsAll, mapBlocksAll_cons, ih h]
    cases n, hn using leaf_cases <;> rfl
  | frame F inner ns ihi ih =>
    rw [blocksAll_cons, blocks_framed, List.append_eq_nil_iff] at h
    simp only [fillYieldsAll, fillYields_framed, mapBlocksAll_cons, mapBlocks_framed, ihi h.1,
      ih h.2]
  | block => simp at h

theorem blocksAll_fillYieldsAll {ns : List Node} (h : blocksAll ns = []) (c : Block) :
    ∃ k, blocksAll (fillYieldsAll c ns) = (List.replicate k (blocksAll c.nodes)).flatten := by
  induction ns using forest_induction with
  | nil => exact ⟨0, rfl⟩
  | leaf n ns hn ih =>
    rw [blocksAll_cons, blocks_leaf hn, List.nil_append] at h
    obtain ⟨k, hk⟩ := ih h
    rw [fillYieldsAll, blocksAll_cons, hk]
    rcases fillYields_leaf hn with ⟨p, hy⟩ | hy
    · exact ⟨k + 1, by simp [hy, blocks, List.replicate_succ]⟩
    · exact ⟨k, by rw [hy, blocks_leaf hn, List.nil_append]⟩
  | frame F inner ns ihi ih =>
    rw [blocksAll_cons, blocks_framed, List.append_eq_nil_iff] at h
    obtain ⟨k, hk⟩ := ihi h.1
    obtain ⟨m, hm⟩ := ih h.2
    refine ⟨k + m, ?_⟩
    rw [fillYieldsAll, fillYields_framed, blocksAll_cons, blocks_framed, hk, hm,
      List.replicate_add, List.flatten_append]
  | block => simp at h

/-- Layers without blocks. -/
theorem blocksAll_plug_eq_nil_iff {xs : List Layer} {ns : List Node} :
    blocksAll (plug xs ns) = [] ↔
      (∀ x ∈ xs, blocksAll x.before = [] ∧ blocksAll x.after = []) ∧ blocksAll ns = [] := by
  induction xs with
  | nil => simp
  | cons x xs ih => simp [Layer.around, ih, and_assoc, and_left_comm, and_comm]

theorem blocksAll_plug {xs : List Layer}
    (h : ∀ x ∈ xs, blocksAll x.before = [] ∧ blocksAll x.after = []) (ns : List Node) :
    blocksAll (plug xs ns) = blocksAll ns := by
  induction xs with
  | nil => rfl
  | cons x xs ih =>
    rw [List.forall_mem_cons] at h
    simp [Layer.around, ih h.2, h.1.1, h.1.2]

theorem mapBlocksAll_plug {xs : List Layer}
    (h : ∀ x ∈ xs, blocksAll x.before = [] ∧ blocksAll x.after = [])
    (f : BlockHead → List Node → Node) (ns : List Node) :
    mapBlocksAll f (plug xs ns) = plug xs (mapBlocksAll f ns) := by
  induction xs with
  | nil => rfl
  | cons x xs ih =>
    rw [List.forall_mem_cons] at h
    simp [Layer.around, ih h.2, mapBlocksAll_of_no_blocks h.1.1, mapBlocksAll_of_no_blocks h.1.2]

end Node

section

variable {root : Block}

/-- A pass over the blocks of a tree that a document without blocks and a content make goes through
the content. -/
theorem Block.mapBlocks_takeIn (h : blocksAll root.nodes = [])
    (f : BlockHead → List Node → Node) (content : Option Block) :
    (root.takeIn content).mapBlocks f = root.takeIn (content.map (Block.mapBlocks f)) := by
  have hroot : root.mapBlocks f = root := by
    rw [Block.mapBlocks, mapBlocksAll_of_no_blocks h]
  cases content with
  | none => exact hroot
  | some c =>
    simp only [Option.map_some, Block.takeIn, Block.mapBlocks, isEmpty_mapBlocksAll]
    split
    · exact hroot
    · split
      · rw [mapBlocksAll_fillYieldsAll h, Block.mapBlocks]
      · obtain ⟨xs, last, hway⟩ := exists_leadsTo root.nodes
        rw [← hway.plug_eq, blocksAll_plug_eq_nil_iff] at h
        simp only [hway.placeDefault_eq, mapBlocksAll_plug h.1, mapBlocksAll_append,
          mapBlocksAll_of_no_blocks h.2]
        rfl

/-- The only blocks of such a tree are those of the content, as often as the content is there. -/
theorem Block.exists_blocksAll_takeIn (h : blocksAll root.nodes = []) (content : Option Block) :
    ∃ k, blocksAll (root.takeIn content).nodes =
      (List.replicate k (contentBlocks content)).flatten := by
  cases content with
  | none => exact ⟨0, h⟩
  | some c =>
    by_cases hc : c.nodes = []
    · exact ⟨0, by simp [Block.takeIn, hc, h]⟩
    · rw [root.takeIn_some hc]
      split
      · exact blocksAll_fillYieldsAll h c
      · obtain ⟨xs, last, hway⟩ := exists_leadsTo root.nodes
        rw [← hway.plug_eq, blocksAll_plug_eq_nil_iff] at h
        refine ⟨1, ?_⟩
        simp [contentBlocks, hway.placeDefault_eq, blocksAll_plug h.1, h.2, blocks]

end

/-! ### Text -/

namespace Node

/-- A pass that shows the content of every block leaves the text as it is. -/
theorem shownTextAll_mapBlocksAll {f : BlockHead → List Node → Node}
    (hf : ∀ h ns, shownText (f h ns) = shownTextAll ns) (ns : List Node) :
    shownTextAll (mapBlocksAll f ns) = shownTextAll ns := by
  induction ns using forest_induction with
  | nil => rfl
  | leaf n ns hn ih => rw [mapBlocksAll_cons, mapBlocks_leaf hn, shownTextAll, ih, shownTextAll]
  | frame F inner ns ihi ih =>
    rw [mapBlocksAll_cons, mapBlocks_framed, shownTextAll, shownText_framed, ihi, ih, shownTextAll,
      shownText_framed]
  | block h inner ns ihi ih =>
    rw [mapBlocksAll_cons, mapBlocks_block, shownTextAll, hf, ihi, ih, shownTextAll, shownText]

theorem shownTextAll_dissolveAll (ns : List Node) :
    shownTextAll (dissolveAll ns) = shownTextAll ns := by
  rw [dissolveAll_eq_mapBlocksAll]
  exact shownTextAll_mapBlocksAll (fun _ _ ↦ rfl) ns

end Node

/-! ### The document of an include site -/

theorem Outcomes.exists_ok_of_ok {ε α β : Type} {E : ε → ε → Prop} {R : α → β → Prop} {a : α}
    {y : Except ε β} (h : Outcomes E R (.ok a) y) : ∃ b, y = .ok b ∧ R a b := by
  cases h with
  | ok hr => exact ⟨_, rfl, hr⟩

theorem Linked.blocksAll_embedded {l : Linked} (h : l.inherits) :
    blocksAll l.embedded.nodes = [] := by
  simp [Linked.embedded, h, blocksAll_dissolveAll]

theorem Linked.shownTextAll_embedded (l : Linked) :
    shownTextAll l.embedded.nodes = shownTextAll l.root.nodes := by
  unfold Linked.embedded
  split
  · exact shownTextAll_dissolveAll l.root.nodes
  · rfl

/-- A document that links does so whatever numbers have been drawn before, and if it inherits, it
is the same where it is included. -/
theorem exists_linkNode_of_link {f : Reference} {e : Option Node} {q p : Position}
    {ns : List Node} {l₀ : Linked} (hu : (Node.group ⟨.inherits f e q :: ns, p⟩).Unlinked)
    (h : link (.group ⟨.inherits f e q :: ns, p⟩) = .ok l₀) (s : Nat) :
    ∃ l s', linkNode (.group ⟨.inherits f e q :: ns, p⟩) s = .ok (l, s') ∧
      l.inherits ∧ l.embedded = l₀.embedded := by
  obtain ⟨s₀, h⟩ := link_eq_ok.mp h
  have hf : Function.Injective (· + s) := fun _ _ h ↦ Nat.add_right_cancel h
  have hs : Shifts (· + s) 0 s := fun i _ ↦ by simp
  have hrelated := (documentCases_related hf).document _ hu 0 s hs
  rw [h] at hrelated
  obtain ⟨⟨l, s'⟩, hl, ⟨hrenames, hinherits⟩, -⟩ := hrelated.exists_ok_of_ok
  have hnodes : mapHeadsAll (.rename (· + s)) l₀.embedded.nodes = l₀.embedded.nodes :=
    mapBlocksAll_of_no_blocks (Linked.blocksAll_embedded (Linked.inherits_of_linkNode h)) _
  refine ⟨l, s', hl, Linked.inherits_of_linkNode hl, ?_⟩
  rw [hrenames.embedded hinherits, Block.rename, Block.mapHeads, hnodes]

/-! ### Sealed include sites -/

/-- Changes of a tree do not reach outside the named blocks of the nodes in it. -/
theorem Change.outsideAll_withinAll (cs : List Change) (ns : List Node) :
    outsideAll (Change.withinAll cs ns) = outsideAll ns := by
  induction cs generalizing ns with
  | nil => rfl
  | cons c cs ih =>
    refine (ih (c.within ns)).trans ?_
    cases c with
    | override targets mode content => exact outsideAll_amendAll targets mode content ns
    | front => rfl

/-- What it means for an include site that the included document `d` inherits and has the link `l`.
At the site it stands as `l.embedded`. -/
structure SealedSite (f : Reference) (d : Node) (b : Option Block) (p : Position) (l : Linked) :
    Prop where
  noBlocks : blocksAll l.embedded.nodes = []
  text : shownTextAll l.embedded.nodes = shownTextAll l.root.nodes
  /-- The tree that takes the place of the site has no named blocks but copies of those in the
  content. -/
  spliced : ∀ s b' s', expandBody b s = .ok (b', s') → ∃ s'',
    expand (.includes f (some d) b p) s = .ok (.group (l.embedded.takeIn b'), s'') ∧
    ∃ k, blocksAll (l.embedded.takeIn b').nodes = (List.replicate k (contentBlocks b')).flatten
  /-- Outside the named blocks, the tree consists of the included document and of what the content
  has outside its own. -/
  outside : ∀ b' : Option Block,
    (l.embedded.takeIn b').outside = l.embedded.takeIn (b'.map Block.outside)
  /-- The link of a document that comes to the site gives all blocks of `d` and of the documents
  behind it numbers that are not in the document's registry. The tree is in the linked document,
  with numbers on its blocks, unless that was merged into a parent. -/
  registry : ∀ ns q s lP s' t, (Node.group ⟨ns, q⟩).Unlinked →
    linkNode (.group ⟨ns, q⟩) s = .ok (lP, s') →
    ComesTo (.includes f (some d) b p) (ownStatements ns) s t →
    ∃ (b' : Option Block) (t₁ t₂ : Nat) (bs : List NamedBlock),
      expandBody b t = .ok (b', t₁) ∧
      expand (.includes f (some d) b p) t = .ok (.group (l.embedded.takeIn b'), t₂) ∧
      d.declarations t₁ = .ok bs ∧
      (∀ c ∈ bs, ∃ i : Nat, c.head.id = some i ∧ t₁ < i ∧ i ≤ t₂) ∧
      (∀ i : Nat, t₁ < i → i ≤ t₂ → ¬lP.declared.Mentions i) ∧
      (lP.inherits = false → ∃ (K : Hole) (n : Node), lP.root.nodes = K.fill [n] ∧
        bareAll [n] = bareAll [.group (l.embedded.takeIn b')] ∧
        outsideAll [n] = [.group (l.embedded.takeIn b').outside])
  /-- When a document `X` inherits from `P`, a tree from the site that is in the linked `P` stays
  what it is outside the named blocks, with the same named blocks around it; or else an override
  replaces the content of a named block around it, and the result does not depend on it. -/
  kept : ∀ (P X : Node) u lX u', P.InheritedBy X → linkNode X u = .ok (lX, u') →
    ∃ (lP : Linked) (cs : List Change), (∃ s s', linkNode P s = .ok (lP, s')) ∧
      P.ChangedBy X u lP cs ∧ lX.root.nodes = Change.runAll cs lP.root.nodes ∧
      ∀ (K : Hole) n b', lP.root.nodes = K.fill [n] →
        outsideAll [n] = [.group (l.embedded.takeIn b').outside] →
        (∃ (K' : Hole) (n' : Node), lX.root.nodes = K'.fill [n'] ∧ K'.around = K.around ∧
          outsideAll [n'] = [.group (l.embedded.takeIn b').outside]) ∨
        ((∃ c ∈ cs, ∃ h ∈ K.around, c.Replaces h) ∧
          ∀ ns, Change.runAll cs (K.fill ns) = lX.root.nodes)

/-- An inheriting document leaves a node what it is outside the named blocks, or it replaces the
content of a block around it. -/
theorem Hole.exists_kept {cs : List Change} {ns : List Node} {K : Hole} {n : Node}
    (h : ns = Change.runAll cs (K.fill [n])) :
    (∃ (K' : Hole) (n' : Node), ns = K'.fill [n'] ∧ K'.around = K.around ∧
      outsideAll [n'] = outsideAll [n]) ∨
    ((∃ c ∈ cs, ∃ h ∈ K.around, c.Replaces h) ∧ ∀ ms, Change.runAll cs (K.fill ms) = ns) := by
  rw [h]
  rcases Hole.runAll_fill cs K with ⟨K', haround, hK'⟩ | ⟨hreplaced, ms, hms⟩
  · obtain ⟨n', hn'⟩ := Change.exists_withinAll_singleton cs n
    exact .inl ⟨K', n', by rw [hK', hn'], haround, by rw [← hn', Change.outsideAll_withinAll]⟩
  · exact .inr ⟨hreplaced, fun ks ↦ by rw [hms, hms]⟩

section

variable {g : Reference} {e : Option Node} {q r : Position} {rest : List Node} {l : Linked}

/-- An include site whose document inherits and links is expanded when its content is. -/
theorem exists_expand_of_link (hu : (Node.group ⟨.inherits g e q :: rest, r⟩).Unlinked)
    (hl : link (.group ⟨.inherits g e q :: rest, r⟩) = .ok l) (f : Reference)
    {b b' : Option Block} (p : Position) {s s' : Nat} (hb : expandBody b s = .ok (b', s')) :
    ∃ s'', expand (.includes f (some (.group ⟨.inherits g e q :: rest, r⟩)) b p) s =
      .ok (.group (l.embedded.takeIn b'), s'') := by
  obtain ⟨l', s'', hl', -, hembedded⟩ := exists_linkNode_of_link hu hl s'
  exact ⟨s'', expand_includes_eq_ok.mpr ⟨b', s', l', hb, hl', by rw [hembedded]⟩⟩

/-- A document that inherits from another one and links is sealed wherever it is included. -/
theorem included_chain_sealed (f : Reference) (b : Option Block) (p : Position)
    (hu : (Node.group ⟨.inherits g e q :: rest, r⟩).Unlinked)
    (hl : link (.group ⟨.inherits g e q :: rest, r⟩) = .ok l) :
    SealedSite f (.group ⟨.inherits g e q :: rest, r⟩) b p l := by
  have hinherits : l.inherits := by
    obtain ⟨_, hl⟩ := link_eq_ok.mp hl
    exact Linked.inherits_of_linkNode hl
  have hblocks := Linked.blocksAll_embedded hinherits
  refine ⟨hblocks, l.shownTextAll_embedded, fun s b' s' hb ↦ ?spliced,
    Block.mapBlocks_takeIn hblocks _, fun ns q s lP s' t huP hP ht ↦ ?registry,
    fun P X u lX u' hX hlX ↦ ?kept⟩
  case spliced =>
    obtain ⟨s'', hs''⟩ := exists_expand_of_link hu hl f p hb
    exact ⟨s'', hs'', Block.exists_blocksAll_takeIn hblocks b'⟩
  case registry =>
    obtain ⟨b', t₁, l', t₂, hb, hl', hnot⟩ := ht.exists_not_mentions huP.unnumbered hP
    obtain ⟨bs, hbs, hrange⟩ := exists_declarations_range hu.unnumbered hl'
    obtain ⟨_, _, hlink, hinherits', hembedded⟩ := exists_linkNode_of_link hu hl t₁
    rw [hl'] at hlink
    cases hlink
    have hsite := expand_includes_eq_ok (f := f) (p := p).mpr
      ⟨b', t₁, l', hb, hl', congrArg (fun root ↦ Node.group (root.takeIn b')) hembedded.symm⟩
    refine ⟨b', t₁, t₂, bs, hb, hsite, hbs, hrange, hnot hinherits', fun hlP ↦ ?_⟩
    obtain ⟨K, n, hK, hn⟩ := ht.exists_fill_root hP hlP hsite
    exact ⟨K, n, hK, hn, outsideAll_congr hn⟩
  case kept =>
    obtain ⟨lP, cs, hP, hcs⟩ := hX.exists_changes hlX
    exact ⟨lP, cs, hP.exists_link, hP, hcs, fun K n b' hK hn ↦ hn ▸ Hole.exists_kept (hK ▸ hcs)⟩

end

/-- A document that inherits. -/
def framedWidget : Node :=
  let frame := .group ⟨[.block (.fresh "slot" .replace ⟨none, 1⟩) [.text "f" ⟨none, 1⟩]], ⟨none, 1⟩⟩
  .group ⟨[.inherits (.loaded "frame.tmpl") (some frame) ⟨none, 1⟩,
    .block (.fresh "slot" .append ⟨none, 2⟩) [.text "w" ⟨none, 2⟩]], ⟨none, 1⟩⟩

/-- The content of an include site. -/
def blockContent : Block :=
  ⟨[.block (.fresh "more" .replace ⟨none, 3⟩) [.text "m" ⟨none, 3⟩]], ⟨none, 3⟩⟩

/-- Includes `framedWidget` in a block. -/
def widgetPage (content : Option Block) : List Node :=
  [.block (.fresh "outer" .replace ⟨none, 1⟩)
    [.includes (.loaded "widget.tmpl") (some framedWidget) content ⟨none, 2⟩]]

/-- Inherits from such a page and replaces the content of one of its blocks by nothing. -/
def emptyingPage (content : Option Block) (name : String) : Node :=
  let page := .group ⟨widgetPage content, ⟨none, 1⟩⟩
  .group ⟨[.inherits (.loaded "page.tmpl") (some page) ⟨none, 1⟩,
    .block (.fresh name .replace ⟨none, 2⟩) []], ⟨none, 1⟩⟩

theorem included_chain_sealed_framedWidget :
    ∃ l lP lX, framedWidget.Unlinked ∧ link framedWidget = .ok l ∧
      SealedSite (.loaded "widget.tmpl") framedWidget (some blockContent) ⟨none, 2⟩ l ∧
      shownTextAll l.embedded.nodes = "fw" ∧
      ComesTo (.includes (.loaded "widget.tmpl") (some framedWidget) (some blockContent) ⟨none, 2⟩)
        (ownStatements (widgetPage (some blockContent))) 0 0 ∧
      link (.group ⟨widgetPage (some blockContent), ⟨none, 1⟩⟩) = .ok lP ∧
      lP.declared.get "slot" = [] ∧ lP.declared.get "more" = [4] ∧
      shownTextAll lP.root.nodes = "fwm" ∧
      (Node.group ⟨widgetPage (some blockContent), ⟨none, 1⟩⟩).InheritedBy
        (emptyingPage (some blockContent) "more") ∧
      link (emptyingPage (some blockContent) "more") = .ok lX ∧
      shownTextAll lX.root.nodes = "fw" := by
  have hu : framedWidget.Unlinked := by decide
  have hsealed := included_chain_sealed (.loaded "widget.tmpl") (some blockContent) ⟨none, 2⟩ hu rfl
  exact ⟨_, _, _, hu, rfl, hsealed, rfl, .block .here, rfl, rfl, rfl, rfl, .step .self, rfl, rfl⟩

/-- An override of a block of the including document drops what became of the include site. -/
theorem exists_included_chain_dropped :
    ¬∀ (f : Reference) (d : Node) (b : Option Block) (p : Position) (ns : List Node) (q : Position)
      (t : Nat) (X : Node) (l lP lX : Linked) (b' : Option Block) (t₁ : Nat) (K : Hole) (n : Node),
      d.Unlinked → link d = .ok l → l.inherits →
      ComesTo (.includes f (some d) b p) (ownStatements ns) 0 t →
      expandBody b t = .ok (b', t₁) → link (.group ⟨ns, q⟩) = .ok lP →
      (Node.group ⟨ns, q⟩).InheritedBy X → link X = .ok lX → lP.root.nodes = K.fill [n] →
      bareAll [n] = bareAll [.group (l.embedded.takeIn b')] →
      ∃ (K' : Hole) (n' : Node), lX.root.nodes = K'.fill [n'] ∧
        outsideAll [n'] = [.group (l.embedded.takeIn b').outside] := by
  intro h
  obtain ⟨K', n', hK', hn'⟩ := h (.loaded "widget.tmpl") framedWidget none ⟨none, 2⟩
    (widgetPage none) ⟨none, 1⟩ 0 (emptyingPage none "outer") _ _ _ none 0
    (.inBlock [] _ (.top [] []) []) _ (by decide) rfl rfl (.block .here) rfl rfl (.step .self)
    rfl rfl rfl
  obtain rfl := Hole.eq_of_fill_eq_block hK'.symm
  cases hn'

end Templating
