import Templating.Proofs.Linking.Soundness
import Templating.Proofs.Linking.Standalone
import Templating.Proofs.Node.Flat

/-!
# Chains of inheriting documents

What a whole chain of documents is linked to. The mixin definitions of the inheriting documents
come first, then the last document of the chain, in which each replace-mode block has its content
overridden by the blocks of its name, those of the nearest document first (`Linked.chain`). Such a
chain shuts off no name, so the targets of a name are all replace-mode blocks of that name however
many registries lie over each other.
-/

namespace Templating

open Node

/-- An inheriting document, apart from the document it inherits from. -/
structure Extension where
  file : Reference
  /-- The place of the statement that it inherits. -/
  statement : Position
  nodes : List Node
  position : Position

/-- The documents, each of which inherits from the next and the last from `base`. -/
def chain (es : List Extension) (base : Block) : Node :=
  es.foldr (fun e parent ↦
    .group ⟨.inherits e.file (some parent) e.statement :: e.nodes, e.position⟩) (.group base)

/-- The mixin definitions at the top of a document. -/
def Extension.mixins (e : Extension) : List Node :=
  (topLevelAll e.nodes).filter (·.isMixinDefinition)

/-- The document overrides blocks of `base` and nothing else. It refers to no other file; at its
top there are only mixin definitions and named blocks, with no named blocks inside them; and each
name is that of a replace-mode block of `base`. -/
structure Extension.Overrides (e : Extension) (base : Block) : Prop where
  standalone : Standalone e.nodes
  top : ∀ n ∈ topLevelAll e.nodes, n.isMixinDefinition ∨ n.isBlock
  flat : Flat e.nodes
  mixins : ∀ n ∈ e.mixins, blocks n = []
  names : ∀ b ∈ blocksAll e.nodes, ∃ c ∈ blocksAll base.nodes,
    c.head.name = b.head.name ∧ c.head.mode = .replace

/-! ### One merge -/

/-- Where blocks are not nested all of them are outermost. -/
theorem outermostAll_eq_blocksAll {ns : List Node} (h : Flat ns) :
    outermostAll [] ns = blocksAll ns := by
  induction ns using forest_induction with
  | nil => rfl
  | leaf n ns hn ih =>
    rw [outermostAll, outermost_leaf hn, ih ((flat_cons_leaf hn).mp h), blocksAll_cons,
      blocks_leaf hn]
  | frame F inner ns ihi ih =>
    rw [flat_cons_framed] at h
    rw [outermostAll, outermost_framed, ihi h.1, ih h.2, blocksAll_cons, blocks_framed]
  | block k inner ns ihi ih =>
    rw [flat_cons_block] at h
    have hnone : outermostAll [k.name] inner = [] := by
      rw [List.eq_nil_iff_forall_not_mem]
      intro b hb
      have hmem := mem_blocksAll_of_mem_outermostAll hb
      rw [h.1] at hmem
      cases hmem
    simp [outermostAll, outermost, hnone, ih h.2, h.1]

/-- A document whose blocks are not nested shuts off no name. -/
theorem Generation.not_shuts {g : Generation} (h : Flat g.nodes) (m : String) : ¬ g.Shuts m := by
  rintro ⟨⟨b, hb, hname, hmode⟩, hout⟩
  rw [outermostAll_eq_blocksAll h] at hout
  exact hout b hb hname hmode

section

variable {s s' : Nat} {parent : Linked} {gs : List Generation}

/-- Overrides by number are overrides by name, as long as no name is shut off. -/
theorem Linked.Sound.bareAll_foldl_apply (hp : parent.Sound s s' gs)
    (hopen : ∀ g ∈ gs, ∀ m, ¬ g.Shuts m) {bs : List NamedBlock}
    (hbs : ∀ b ∈ bs, blocksAll b.nodes = []) {ns : List Node}
    (hns : ∀ c ∈ blocksAll ns, ∃ xs, ⟨c.head, xs⟩ ∈ blocksAll parent.root.nodes) :
    bareAll (bs.foldl parent.declared.apply ns) =
      (bs.map NamedBlock.bare).foldl overrideBy (bareAll ns) := by
  induction bs generalizing ns with
  | nil => rfl
  | cons b bs ih =>
    rw [List.forall_mem_cons] at hbs
    have hstep : bareAll (parent.declared.apply ns b) = overrideBy (bareAll ns) b.bare := by
      apply mapHeadsAll_amendAll
      intro c hc
      obtain ⟨xs, hxs⟩ := hns c hc
      obtain ⟨i, hi, -⟩ := hp.numbered _ hxs
      change c.head.id = some i at hi
      have hcover : i ∈ parent.declared.targets b.head.name ↔
          c.head.name = b.head.name ∧ c.head.mode = .replace :=
        (hp.covers _ hxs i hi b.head.name).trans
          ⟨fun h ↦ ⟨h.1, h.2.1⟩, fun h ↦ ⟨h.1, h.2, fun g hg _ ↦ hopen g hg _⟩⟩
      rw [Bool.eq_iff_iff, BlockHead.isAmong_iff]
      simp only [hi, Option.some_inj, exists_eq_left', hcover, BlockHead.isReplaceNamed,
        Bool.and_eq_true, decide_eq_true_iff]
      exact and_comm
    have hkeep : ∀ c ∈ blocksAll (parent.declared.apply ns b),
        ∃ xs, ⟨c.head, xs⟩ ∈ blocksAll parent.root.nodes := by
      intro c hc
      rcases mem_blocksAll_amendAll hc with ⟨xs, hxs, -⟩ | hc
      · obtain ⟨ys, hys⟩ := hns _ hxs
        exact ⟨ys, hys⟩
      · rw [hbs.1] at hc
        cases hc
    rw [List.foldl_cons, ih hbs.2 hkeep, hstep, List.map_cons, List.foldl_cons]

/-- A merge of a document whose blocks are not nested overrides by name. -/
theorem Linked.Sound.bareAll_mergeAll (hp : parent.Sound s s' gs)
    (hopen : ∀ g ∈ gs, ∀ m, ¬ g.Shuts m) {child : List Node} (hf : Flat child) (r : Registry) :
    bareAll (mergeAll parent.declared [] child ⟨parent.root.nodes, r⟩).2.parent =
      ((blocksAll child).map NamedBlock.bare).foldl overrideBy (bareAll parent.root.nodes) := by
  have hbare := bareAll_mergeAll_fst parent.declared child ⟨parent.root.nodes, r⟩
  have hf' := Flat.of_bareAll_eq hbare hf
  rw [parent_mergeAll, outermostAll_eq_blocksAll hf',
    hp.bareAll_foldl_apply hopen hf' fun c hc ↦ ⟨c.nodes, hc⟩, ← blocksAll_bareAll, hbare,
    blocksAll_bareAll]

end

/-! ### The whole chain -/

/-- The blocks that override, in the order in which they do: those of the last inheriting document
first. -/
def overridesOf (es : List Extension) : List NamedBlock :=
  es.reverse.flatMap fun e ↦ blocksAll e.nodes

/-- The tree of a chain. -/
def chained (es : List Extension) (base : Block) : List Node :=
  es.flatMap Extension.mixins ++ overrideNamed (overridesOf es) base.nodes

section

variable {base : Block} {e : Extension} {es : List Extension}

/-- One more document of a chain. -/
theorem bareAll_chained_cons (he : e.Overrides base) (hes : ∀ e ∈ es, e.Overrides base) :
    ((blocksAll e.nodes).map NamedBlock.bare).foldl overrideBy (bareAll (chained es base)) =
      bareAll (es.flatMap Extension.mixins ++
        overrideNamed (overridesOf (e :: es)) base.nodes) := by
  have hmixins : blocksAll (es.flatMap Extension.mixins) = [] := by
    rw [blocksAll_eq_flatMap, List.flatMap_eq_nil_iff]
    intro n hn
    obtain ⟨e', he', hne'⟩ := List.mem_flatMap.mp hn
    exact (hes e' he').mixins n hne'
  have hplain : ∀ c ∈ overridesOf es ++ blocksAll e.nodes, blocksAll c.nodes = [] := by
    rw [List.forall_mem_append]
    refine ⟨fun c hc ↦ ?_, he.flat⟩
    obtain ⟨e', he', hce'⟩ := List.mem_flatMap.mp hc
    exact (hes e' (List.mem_reverse.mp he')).flat c hce'
  have hover : overridesOf (e :: es) = overridesOf es ++ blocksAll e.nodes := by
    simp [overridesOf]
  rw [← bareAll_foldl_overrideBy, chained, foldl_overrideBy_append hmixins,
    foldl_overrideBy hplain, hover]

/-- Every name that a chain overrides is found in its tree. -/
theorem exists_mem_blocksAll_of_bareAll_eq {ns : List Node} {bs : List NamedBlock}
    (hf : Flat base.nodes) (he : e.Overrides base)
    (h : bareAll ns = bareAll (es.flatMap Extension.mixins ++ overrideNamed bs base.nodes))
    {b : NamedBlock} (hb : b ∈ blocksAll e.nodes) :
    ∃ c ∈ blocksAll ns, c.head.name = b.head.name := by
  obtain ⟨c, hc, hname, -⟩ := he.names b hb
  obtain ⟨xs, hxs⟩ := exists_mem_blocksAll_rewriteAll hf _ hc
  obtain ⟨d, hd, hhead, -⟩ := exists_block_of_mapHeadsAll_eq h.symm
    (b := ⟨c.head, xs⟩) (by rw [blocksAll_append]; exact List.mem_append_right _ hxs)
  have hdname : c.head.bare.name = d.head.bare.name := congrArg BlockHead.name hhead
  exact ⟨d, hd, hdname.symm.trans hname⟩

/-- A chain that has been linked with the numbers after `s` up to `s'`. -/
structure ChainLinked (es : List Extension) (base : Block) (s : Nat) (l : Linked) (s' : Nat)
    (gs : List Generation) : Prop where
  link : linkNode (chain es base) s = .ok (l, s')
  inherits : l.inherits = !es.isEmpty
  sound : l.Sound s s' gs
  not_shuts : ∀ g ∈ gs, ∀ m, ¬ g.Shuts m
  tree : bareAll l.root.nodes = bareAll (chained es base)

/-- The last document of a chain. -/
theorem exists_chainLinked_nil (hbase : Standalone base.nodes)
    (hu : (chain [] base).Unnumbered) (s : Nat) : ∃ l s' gs, ChainLinked [] base s l s' gs := by
  obtain ⟨ns, p⟩ := base
  have hhead : ∀ n ∈ ns.head?, n.isInherits = false :=
    fun n hn ↦ (hbase n (mem_listingAll_of_mem (List.mem_of_mem_head? hn))).1
  have hexp := expandAll_eq_ok hbase s
  have hE := linkCases_sound.expandAll ns hexp (unnumbered_group.mp hu)
  refine ⟨_, _, [], ⟨(linkNode_group_eq_ok hhead).mpr
    ⟨firstInheritAll_eq_none fun n hn ↦ (hbase n hn).1, ns, s, hexp, rfl, rfl⟩, rfl,
    hE.declare.sound p, by simp, ?_⟩⟩
  simpa [chained, overridesOf, overrideNamed_nil] using hE.bareAll_declareAll

/-- A document that inherits from a linked chain. -/
theorem ChainLinked.cons {s s' : Nat} {l : Linked} {gs : List Generation}
    (h : ChainLinked es base (declareAll e.nodes (s, .empty)).2.1 l s' gs)
    (hf : Flat base.nodes) (he : e.Overrides base) (hes : ∀ e ∈ es, e.Overrides base)
    (hu : UnnumberedAll e.nodes) : ∃ l gs, ChainLinked (e :: es) base s l s' gs := by
  have hexp := expandAll_eq_ok he.standalone s
  have hE := linkCases_sound.expandAll e.nodes hexp hu
  have hbare := hE.bareAll_declareAll
  have hf' := Flat.of_bareAll_eq hbare he.flat
  obtain ⟨os, hos, hnames⟩ := overridesAll_eq_ok he.top
  have hover := (overridesAll_congr hbare).trans hos
  have hmixins := bareAll_topMixinsAll_congr ((bareAll_mergeAll_fst l.declared
    (declareAll e.nodes (s, .empty)).1
    ⟨l.root.nodes, (declareAll e.nodes (s, .empty)).2.2⟩).trans hbare)
  have hmerge : bareAll (mergeAll l.declared [] (declareAll e.nodes (s, .empty)).1
      ⟨l.root.nodes, (declareAll e.nodes (s, .empty)).2.2⟩).2.parent =
      bareAll (es.flatMap Extension.mixins ++
        overrideNamed (overridesOf (e :: es)) base.nodes) := by
    rw [h.sound.bareAll_mergeAll h.not_shuts hf', ← blocksAll_bareAll, hbare, blocksAll_bareAll,
      h.tree, bareAll_chained_cons he hes]
  have hfound : ∀ o ∈ os, ∃ b ∈ blocksAll (mergeAll l.declared []
      (declareAll e.nodes (s, .empty)).1
      ⟨l.root.nodes, (declareAll e.nodes (s, .empty)).2.2⟩).2.parent, b.head.name = o.1 := by
    intro o ho
    obtain ⟨b, hb, hbo⟩ := hnames o ho
    exact hbo ▸ exists_mem_blocksAll_of_bareAll_eq hf he hmerge hb
  have hinherit := Linked.inherit_eq_ok.mpr ⟨hfound, rfl⟩
  have hfirst := firstInheritAll_eq_none fun n hn ↦ (he.standalone n hn).1
  refine ⟨_, _, ⟨linkNode_inherits_eq_ok.mpr ⟨hfirst, _, _, hexp, os, hover, l, h.link,
    hinherit⟩, rfl, h.sound.inherit hE.declare hinherit, ?_, ?_⟩⟩
  · rw [List.forall_mem_cons]
    exact ⟨Generation.not_shuts hf', h.not_shuts⟩
  · refine (bareAll_append _ _).trans ?_
    rw [hmixins, topMixinsAll_eq_filter, hmerge, ← bareAll_append, ← List.append_assoc]
    rfl

/-- Chains are linked, however many numbers were drawn before. -/
theorem exists_chainLinked (hbase : Standalone base.nodes) (hf : Flat base.nodes)
    (hes : ∀ e ∈ es, e.Overrides base) (hu : (chain es base).Unnumbered) (s : Nat) :
    ∃ l s' gs, ChainLinked es base s l s' gs := by
  induction es generalizing s with
  | nil => exact exists_chainLinked_nil hbase hu s
  | cons e es ih =>
    rw [List.forall_mem_cons] at hes
    obtain ⟨huparent, hunodes⟩ := unnumberedAll_cons.mp (unnumbered_group.mp hu)
    obtain ⟨parent, s', gs, h⟩ := ih hes.2 (unnumbered_inherits.mp huparent)
      (declareAll e.nodes (s, .empty)).2.1
    obtain ⟨l, gs', hl⟩ := h.cons hf hes.1 hes.2 hunodes
    exact ⟨l, s', gs', hl⟩

/-- A chain of documents of which each inherits from the next links to the mixin definitions of the
inheriting documents and the last document, in which the content of each replace-mode block is
combined with the blocks of its name in the inheriting documents, the last of these first. -/
theorem link_chain (hne : es ≠ []) (hu : (chain es base).Unnumbered)
    (hbase : Standalone base.nodes) (hf : Flat base.nodes) (hes : ∀ e ∈ es, e.Overrides base) :
    ∃ l, link (chain es base) = .ok l ∧ l.inherits = true ∧
      bareAll l.root.nodes =
        bareAll (es.flatMap Extension.mixins ++
          rewriteAll (fun h own ↦
            if h.mode = .replace then
              ((es.reverse.flatMap fun e ↦ blocksAll e.nodes).filter
                (·.head.name = h.name)).foldl (fun xs b ↦ b.head.mode.combine xs b.nodes) own
            else own) base.nodes) := by
  obtain ⟨l, s', gs, hl⟩ := exists_chainLinked hbase hf hes hu 0
  refine ⟨l, link_eq_ok.mpr ⟨s', hl.link⟩, ?_, hl.tree⟩
  simpa [hl.inherits] using hne

end

/-- A document with one block in a tag. -/
def titledBase : Block :=
  ⟨[.tag ⟨"h1", false, ⟨none, 1⟩⟩ ⟨[.block (.fresh "title" .replace ⟨none, 1⟩)
    [.text "base" ⟨none, 1⟩]], ⟨none, 1⟩⟩], ⟨none, 1⟩⟩

/-- Two documents above `titledBase`. The nearer one defines a mixin and appends to the block, the
other one puts text before and after it. -/
def titledExtensions : List Extension := [
  ⟨.loaded "mid.tmpl", ⟨none, 1⟩,
    [.group ⟨[.block (.fresh "title" .prepend ⟨none, 2⟩) [.text "before" ⟨none, 2⟩],
      .block (.fresh "title" .append ⟨none, 3⟩) [.text "after" ⟨none, 3⟩]], ⟨none, 2⟩⟩], ⟨none, 1⟩⟩,
  ⟨.loaded "base.tmpl", ⟨none, 1⟩,
    [.mixin ⟨"m", none, false, ⟨none, 1⟩⟩ (some ⟨[.text "M" ⟨none, 1⟩], ⟨none, 1⟩⟩),
      .block (.fresh "title" .append ⟨none, 1⟩) [.text "mid" ⟨none, 1⟩]], ⟨none, 1⟩⟩]

theorem link_titledExtensions :
    titledExtensions ≠ [] ∧ (chain titledExtensions titledBase).Unnumbered ∧
      Standalone titledBase.nodes ∧ Flat titledBase.nodes ∧
      (∀ e ∈ titledExtensions, e.Overrides titledBase) ∧
      ∃ l, link (chain titledExtensions titledBase) = .ok l ∧ l.inherits = true ∧
        bareAll l.root.nodes = [
          .mixin ⟨"m", none, false, ⟨none, 1⟩⟩ (some ⟨[.text "M" ⟨none, 1⟩], ⟨none, 1⟩⟩),
          .tag ⟨"h1", false, ⟨none, 1⟩⟩ ⟨[.block (.fresh "title" .replace ⟨none, 1⟩)
            [.text "before" ⟨none, 2⟩, .text "base" ⟨none, 1⟩, .text "mid" ⟨none, 1⟩,
              .text "after" ⟨none, 3⟩]], ⟨none, 1⟩⟩] := by
  have hne : titledExtensions ≠ [] := by simp [titledExtensions]
  have hu : (chain titledExtensions titledBase).Unnumbered := by decide
  have hbase : Standalone titledBase.nodes := by decide
  have hf : Flat titledBase.nodes := by decide
  have hes : ∀ e ∈ titledExtensions, e.Overrides titledBase := by
    simp only [titledExtensions, List.forall_mem_cons]
    exact ⟨⟨by decide, by decide, by decide, by decide, by decide⟩,
      ⟨by decide, by decide, by decide, by decide, by decide⟩, by simp⟩
  exact ⟨hne, hu, hbase, hf, hes, link_chain hne hu hbase hf hes⟩

end Templating
