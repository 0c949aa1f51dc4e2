import Templating.Proofs.Linking.Lineage
import Templating.Proofs.Linking.Placement
import Templating.Proofs.Linking.Renaming
import Templating.Proofs.Linking.Steps
import Templating.Proofs.Linking.Surroundings
import Templating.Proofs.Node.Members

/-!
# Numbers drawn at an include site

The expansion of a document comes to an include site when a certain number has been drawn
(`ComesTo`). The blocks of the site's own content get numbers up to the one at which the included
document is linked, and what comes behind gets numbers after that link. So the numbers that the link
draws are those of the included document alone, and they are lost when its blocks are dissolved.
-/

namespace Templating

open Node

/-- The expansion of nodes, when `s` is the last number drawn, comes to the include site when `t`
is. The nested sequence of an include is expanded before its document is linked. -/
inductive ComesTo (site : Node) : List Node → BlockId → BlockId → Prop where
  | here {ns : List Node} {s : BlockId} : ComesTo site (site :: ns) s s
  | behind {n n' : Node} {ns : List Node} {s s' t : BlockId} :
    expand n s = .ok (n', s') → ComesTo site ns s' t → ComesTo site (n :: ns) s t
  | framed {F : Frame} {inner ns : List Node} {s t : BlockId} :
    ComesTo site inner s t → ComesTo site (framed F inner :: ns) s t
  | block {h : BlockHead} {inner ns : List Node} {s t : BlockId} :
    ComesTo site inner s t → ComesTo site (.block h inner :: ns) s t

/-- No block has one of the numbers after `t` up to `t'`. -/
def Node.Avoids (t t' : Nat) (ns : List Node) : Prop :=
  ∀ b ∈ blocksAll ns, ∀ i : Nat, b.head.id = some i → i ≤ t ∨ t' < i

/-! ### Expansion that succeeds -/

theorem expandAll_cons_eq_ok {n : Node} {ns ms : List Node} {s s' : Nat} :
    expandAll (n :: ns) s = .ok (ms, s') ↔
      ∃ n' s₁ ns', expand n s = .ok (n', s₁) ∧ expandAll ns s₁ = .ok (ns', s') ∧
        ms = n' :: ns' := by
  simp only [expandAll, Link.bind_eq_ok, Link.pure_eq_ok, Prod.mk.injEq]
  grind

theorem expandBody_eq_ok {ns : List Node} {q : Position} {b : Option Block} {s s' : Nat} :
    expandBody (some ⟨ns, q⟩) s = .ok (b, s') ↔
      ∃ ns', expandAll ns s = .ok (ns', s') ∧ b = some ⟨ns', q⟩ := by
  simp only [expandBody, Link.bind_eq_ok, Link.pure_eq_ok, Prod.mk.injEq]
  grind

theorem expand_includes_eq_ok {f : Reference} {d : Node} {b : Option Block} {p : Position}
    {n : Node} {s s' : Nat} :
    expand (.includes f (some d) b p) s = .ok (n, s') ↔
      ∃ b' s₁ l, expandBody b s = .ok (b', s₁) ∧ linkNode d s₁ = .ok (l, s') ∧
        n = .group (l.embedded.takeIn b') := by
  simp only [expand, Link.bind_eq_ok, Link.pure_eq_ok, Prod.mk.injEq, Linked.embedded]
  grind

theorem expand_includes_none_ne_ok {f : Reference} {b : Option Block} {p : Position} {s : Nat}
    {r : Node × Nat} : expand (.includes f none b p) s ≠ .ok r := by
  intro h
  simp only [expand, Link.bind_eq_ok] at h
  obtain ⟨_, _, _, h⟩ := h
  exact Link.throw_ne_ok h

/-- A frame is kept around what its sequence expands to. The frame of an include stands for the
included document, which takes in what the sequence expands to. -/
theorem expand_framed_cases {F : Frame} {inner : List Node} {n : Node} {s s' : Nat}
    (h : expand (framed F inner) s = .ok (n, s')) :
    (∃ inner', expandAll inner s = .ok (inner', s') ∧ n = framed F inner') ∨
      ∃ (f : Reference) (d : Node) (q p : Position) (inner' : List Node) (s₁ : Nat) (l : Linked),
        F = .includes f (some d) q p ∧ expandAll inner s = .ok (inner', s₁) ∧
        linkNode d s₁ = .ok (l, s') ∧ n = .group (l.embedded.takeIn (some ⟨inner', q⟩)) := by
  cases F with
  | includes f d q p =>
    cases d with
    | none => exact absurd h expand_includes_none_ne_ok
    | some d =>
      obtain ⟨_, s₁, l, hcontent, hl, rfl⟩ := expand_includes_eq_ok.mp h
      obtain ⟨inner', hinner', rfl⟩ := expandBody_eq_ok.mp hcontent
      exact .inr ⟨f, d, q, p, inner', s₁, l, rfl, hinner', hl, rfl⟩
  | _ =>
    simp only [framed, expand, expandBody, Link.bind_eq_ok, Link.pure_eq_ok, Prod.mk.injEq] at h
    refine .inl ?_
    grind [framed]

theorem expand_block_eq_ok {h : BlockHead} {inner : List Node} {n : Node} {s s' : Nat} :
    expand (.block h inner) s = .ok (n, s') ↔
      ∃ inner', expandAll inner s = .ok (inner', s') ∧ n = .block h inner' := by
  simp only [expand, Link.bind_eq_ok, Link.pure_eq_ok, Prod.mk.injEq]
  grind

/-! ### The place of an include site -/

theorem Node.exists_fill_fillYieldsAll {ns : List Node} (h : hasYieldAll ns) (c : Block) :
    ∃ K : Hole, fillYieldsAll c ns = K.fill [.group c] := by
  induction ns using forest_induction with
  | nil => cases h
  | leaf n ns hn ih =>
    rw [hasYieldAll_cons, Bool.or_eq_true] at h
    rcases h with h | h
    · cases n, hn using leaf_cases with
      | yield p => exact ⟨.inFrame [] (.group p) (.top [] []) (fillYieldsAll c ns), rfl⟩
      | _ => cases h
    · obtain ⟨K, hK⟩ := ih h
      exact ⟨K.beside [fillYields c n] [], by rw [K.fill_beside, ← hK, List.append_nil]; rfl⟩
  | frame F inner ns ihi ih =>
    rw [hasYieldAll_cons, hasYield_framed, Bool.or_eq_true] at h
    rcases h with h | h
    · obtain ⟨K, hK⟩ := ihi h
      exact ⟨.inFrame [] F K (fillYieldsAll c ns), by
        rw [fillYieldsAll, fillYields_framed, hK]; rfl⟩
    · obtain ⟨K, hK⟩ := ih h
      exact ⟨K.beside [fillYields c (framed F inner)] [], by
        rw [K.fill_beside, ← hK, List.append_nil]; rfl⟩
  | block k inner ns ihi ih =>
    rw [hasYieldAll_cons, hasYield_block, Bool.or_eq_true] at h
    rcases h with h | h
    · obtain ⟨K, hK⟩ := ihi h
      exact ⟨.inBlock [] k K (fillYieldsAll c ns), by rw [fillYieldsAll, fillYields, hK]; rfl⟩
    · obtain ⟨K, hK⟩ := ih h
      exact ⟨K.beside [fillYields c (.block k inner)] [], by
        rw [K.fill_beside, ← hK, List.append_nil]; rfl⟩

theorem Node.exists_fill_plug (xs : List Layer) (last : List Node) (n : Node) :
    ∃ K : Hole, plug xs (last ++ [n]) = K.fill [n] := by
  induction xs with
  | nil => exact ⟨.top last [], by simp [Hole.fill]⟩
  | cons x xs ih =>
    obtain ⟨K, hK⟩ := ih
    exact ⟨.inFrame x.before x.frame K x.after, by rw [plug_cons, hK]; rfl⟩

/-- The content of an include site is in the document that takes it in. -/
theorem Block.exists_fill_takeIn (root : Block) {c : Block} (hc : c.nodes ≠ []) :
    ∃ K : Hole, (root.takeIn (some c)).nodes = K.fill [.group c] := by
  rw [root.takeIn_some hc]
  split
  · next h => exact exists_fill_fillYieldsAll h c
  · obtain ⟨xs, last, hway⟩ := exists_leadsTo root.nodes
    rw [hway.placeDefault_eq]
    exact exists_fill_plug xs last (.group c)

/-- What expansion makes of an include site that it comes to stands somewhere in the result. -/
theorem ComesTo.exists_fill {site : Node} {ns ms : List Node} {s t s' : Nat}
    (h : ComesTo site ns s t) (he : expandAll ns s = .ok (ms, s')) :
    ∃ (K : Hole) (n : Node) (t' : Nat), expand site t = .ok (n, t') ∧ ms = K.fill [n] := by
  induction h generalizing ms s' with
  | @here ns s =>
    obtain ⟨n, t', rest, hn, -, rfl⟩ := expandAll_cons_eq_ok.mp he
    exact ⟨.top [] rest, n, t', hn, rfl⟩
  | @behind n n' ns s s₁ t hn _ ih =>
    obtain ⟨n'', s₂, rest, hn', hrest, rfl⟩ := expandAll_cons_eq_ok.mp he
    rw [hn] at hn'
    cases hn'
    obtain ⟨K, m, t', hm, rfl⟩ := ih hrest
    exact ⟨K.beside [n'] [], m, t', hm, by rw [K.fill_beside, List.append_nil]; rfl⟩
  | @framed F inner ns s t _ ih =>
    obtain ⟨n, s₁, rest, hn, -, rfl⟩ := expandAll_cons_eq_ok.mp he
    rcases expand_framed_cases hn with ⟨inner', hinner', rfl⟩ |
      ⟨f, d, q, p, inner', s₂, k, rfl, hinner', -, rfl⟩
    · obtain ⟨K, m, t', hm, rfl⟩ := ih hinner'
      exact ⟨.inFrame [] F K rest, m, t', hm, rfl⟩
    · obtain ⟨K, m, t', hm, rfl⟩ := ih hinner'
      obtain ⟨L, hL⟩ := k.embedded.exists_fill_takeIn (c := ⟨K.fill [m], q⟩)
        (K.fill_cons_ne_nil m [])
      let taken := k.embedded.takeIn (some ⟨K.fill [m], q⟩)
      have hcontent : taken.nodes = (L.comp (.inFrame [] (.group q) K [])).fill [m] := by
        rw [Hole.fill_comp]
        exact hL
      refine ⟨.inFrame [] (.group taken.position) (L.comp (.inFrame [] (.group q) K [])) rest, m,
        t', hm, ?_⟩
      rw [Hole.fill, ← hcontent]
      rfl
  | @block k inner ns s t _ ih =>
    obtain ⟨n, s₁, rest, hn, -, rfl⟩ := expandAll_cons_eq_ok.mp he
    obtain ⟨inner', hinner', rfl⟩ := expand_block_eq_ok.mp hn
    obtain ⟨K, m, t', hm, rfl⟩ := ih hinner'
    exact ⟨.inBlock [] k K rest, m, t', hm, rfl⟩

/-! ### Numbers of blocks -/

section

variable {ns ms : List Node} {s s' t t' : Nat}

theorem Node.UnnumberedAll.expanded (hu : UnnumberedAll ns)
    (h : expandAll ns s = .ok (ms, s')) : Expanded s ms s' :=
  linkCases_sound.expandAll ns h hu

theorem Node.Unnumbered.embedded {d : Node} {l : Linked} (hu : d.Unnumbered)
    (h : linkNode d s = .ok (l, s')) : Expanded s l.embedded.nodes s' := by
  obtain ⟨_, _, hsound⟩ := Linked.sound hu h
  exact hsound.embedded

theorem Expanded.avoids_of_le (h : Expanded s ns s') (hle : t' ≤ s) : Avoids t t' ns := by
  intro b hb i hi
  have := h.range b hb i hi
  omega

theorem Expanded.avoids_of_ge (h : Expanded s ns s') (hle : s' ≤ t) : Avoids t t' ns := by
  intro b hb i hi
  have := h.range b hb i hi
  omega

namespace Node.Avoids

theorem append (hn : Avoids t t' ns) (hm : Avoids t t' ms) : Avoids t t' (ns ++ ms) := by
  intro b hb
  rw [blocksAll_append, List.mem_append] at hb
  exact hb.elim (hn b) (hm b)

theorem framed (h : Avoids t t' ns) (F : Frame) : Avoids t t' [framed F ns] := by
  simpa [Avoids] using h

theorem block (h : Avoids t t' ns) {k : BlockHead} (hk : k.id = none) :
    Avoids t t' [.block k ns] := by
  simpa [Avoids, hk] using h

theorem takeIn {root : Block} {content : Option Block} (hr : Avoids t t' root.nodes)
    (hc : ∀ c ∈ content, Avoids t t' c.nodes) : Avoids t t' (root.takeIn content).nodes := by
  obtain ⟨_, -, hmem⟩ := exists_mem_blocksAll_takeIn root content
  intro b hb i hi
  rcases hmem b hb with ⟨xs, hxs, -⟩ | ⟨c, hcc, hbc⟩
  · exact hr _ hxs i hi
  · exact hc c hcc b hbc i hi

/-- Declaring draws later numbers. -/
theorem declareAll (h : Avoids t t' ns) (hs : Expanded s ns s') (hle : t' ≤ s') :
    Avoids t t' (declareAll ns (s', .empty)).1 := by
  intro b hb i hi
  obtain ⟨j, hj, ⟨c, hc, he, -⟩ | hr⟩ := (declareAll_declares .empty hs.numberedUpTo).block b hb
  · exact h c hc i (he ▸ hi)
  · rw [hi, Option.some_inj] at hj
    omega

end Node.Avoids

/-- The content of an include site has numbers from before the link of its document. -/
theorem expanded_of_expandBody {b b' : Option Block}
    (hu : ∀ c ∈ b, UnnumberedAll c.nodes) (h : expandBody b s = .ok (b', s')) :
    s ≤ s' ∧ ∀ c ∈ b', Expanded s c.nodes s' := by
  cases b with
  | none =>
    cases Link.pure_eq_ok.mp h
    simp
  | some c =>
    obtain ⟨ns, q⟩ := c
    obtain ⟨ms, hns, rfl⟩ := expandBody_eq_ok.mp h
    have hms := UnnumberedAll.expanded (hu _ rfl) hns
    exact ⟨hms.le, by simpa using hms⟩

end

theorem Node.Unnumbered.body {f : Reference} {d : Option Node} {b : Option Block} {p : Position}
    (h : Unnumbered (.includes f d b p)) : ∀ c ∈ b, UnnumberedAll c.nodes := by
  rintro ⟨ns, q⟩ hc m hm
  cases Option.mem_def.mp hc
  exact h m (by simp [listing, listingBody, hm])

theorem Node.Unnumbered.document {f : Reference} {d : Node} {b : Option Block} {p : Position}
    (h : Unnumbered (.includes f (some d) b p)) : d.Unnumbered :=
  fun m hm ↦ h m (by simp [listing, listingDocument, hm])

/-- An expansion that comes to an include site expands the content of the site and then links the
included document. If the document inherits, the numbers that its link draws are not there
afterwards. -/
theorem ComesTo.exists_drawn {f : Reference} {d : Node} {b : Option Block} {p : Position}
    {ns ms : List Node} {s t s' : Nat} (h : ComesTo (.includes f (some d) b p) ns s t)
    (hu : UnnumberedAll ns) (he : expandAll ns s = .ok (ms, s')) :
    ∃ (b' : Option Block) (t₁ : Nat) (l : Linked) (t₂ : Nat),
      expandBody b t = .ok (b', t₁) ∧ linkNode d t₁ = .ok (l, t₂) ∧
      s ≤ t₁ ∧ t₂ ≤ s' ∧ (l.inherits → Avoids t₁ t₂ ms) := by
  induction h generalizing ms s' with
  | @here ns s =>
    obtain ⟨hsite, hns⟩ := unnumberedAll_cons.mp hu
    obtain ⟨n, t₂, rest, hn, hrest, rfl⟩ := expandAll_cons_eq_ok.mp he
    obtain ⟨b', t₁, l, hb, hl, rfl⟩ := expand_includes_eq_ok.mp hn
    have hrest := hns.expanded hrest
    obtain ⟨hle, hcontent⟩ := expanded_of_expandBody hsite.body hb
    refine ⟨b', t₁, l, t₂, hb, hl, hle, hrest.le, fun hinherits ↦ ?_⟩
    have hroot : Avoids t₁ t₂ l.embedded.nodes := by
      simp [Avoids, Linked.embedded, hinherits, blocksAll_dissolveAll]
    have hsite := hroot.takeIn fun c hc ↦ (hcontent c hc).avoids_of_ge (Nat.le_refl t₁)
    exact (hsite.framed (.group _)).append (hrest.avoids_of_le (Nat.le_refl t₂))
  | @behind n n' ns s s₁ t hn _ ih =>
    obtain ⟨hnode, hns⟩ := unnumberedAll_cons.mp hu
    obtain ⟨n'', s₂, rest, hn', hrest, rfl⟩ := expandAll_cons_eq_ok.mp he
    rw [hn] at hn'
    cases hn'
    obtain ⟨b', t₁, l, t₂, hb, hl, hle, hle', havoids⟩ := ih hns hrest
    have hhead : Expanded s [n'] s₁ :=
      linkCases_sound.expand n hn (unnumberedAll_singleton.mpr hnode)
    exact ⟨b', t₁, l, t₂, hb, hl, Nat.le_trans hhead.le hle, hle', fun hinherits ↦
      (hhead.avoids_of_ge hle).append (havoids hinherits)⟩
  | @framed F inner ns s t _ ih =>
    obtain ⟨hnode, hns⟩ := unnumberedAll_cons.mp hu
    have hinner : UnnumberedAll inner :=
      UnnumberedAll.of_framed (F := F) (unnumberedAll_singleton.mpr hnode)
    obtain ⟨n, s₁, rest, hn, hrest, rfl⟩ := expandAll_cons_eq_ok.mp he
    have hrest := hns.expanded hrest
    rcases expand_framed_cases hn with ⟨inner', hinner', rfl⟩ |
      ⟨g, e, q, r, inner', s₂, k, rfl, hinner', hk, rfl⟩
    · obtain ⟨b', t₁, l, t₂, hb, hl, hle, hle', havoids⟩ := ih hinner hinner'
      exact ⟨b', t₁, l, t₂, hb, hl, hle, Nat.le_trans hle' hrest.le, fun hinherits ↦
        ((havoids hinherits).framed F).append (hrest.avoids_of_le hle')⟩
    · -- the site is in the content of another include site, which is expanded first
      obtain ⟨b', t₁, l, t₂, hb, hl, hle, hle', havoids⟩ := ih hinner hinner'
      have hroot := hnode.document.embedded hk
      have hlater := Nat.le_trans hle' hroot.le
      refine ⟨b', t₁, l, t₂, hb, hl, hle, Nat.le_trans hlater hrest.le, fun hinherits ↦ ?_⟩
      have htaken : Avoids t₁ t₂ (k.embedded.takeIn (some ⟨inner', q⟩)).nodes :=
        (hroot.avoids_of_le hle').takeIn (by simpa using havoids hinherits)
      exact (htaken.framed (.group _)).append (hrest.avoids_of_le hlater)
  | @block k inner ns s t _ ih =>
    obtain ⟨hnode, hns⟩ := unnumberedAll_cons.mp hu
    obtain ⟨hid, hinner⟩ := unnumbered_block.mp hnode
    obtain ⟨n, s₁, rest, hn, hrest, rfl⟩ := expandAll_cons_eq_ok.mp he
    obtain ⟨inner', hinner', rfl⟩ := expand_block_eq_ok.mp hn
    obtain ⟨b', t₁, l, t₂, hb, hl, hle, hle', havoids⟩ := ih hinner hinner'
    have hrest := hns.expanded hrest
    exact ⟨b', t₁, l, t₂, hb, hl, hle, Nat.le_trans hle' hrest.le, fun hinherits ↦
      ((havoids hinherits).block hid).append (hrest.avoids_of_le hle')⟩

/-! ### Numbers in a registry -/

/-- The number is in the registry: as that of a declared block, of one with a lineage, or of one in
a lineage. -/
def Registry.Mentions (r : Registry) (i : BlockId) : Prop :=
  (∃ name, i ∈ r.get name) ∨ (r.parentsOf? i).isSome ∨ ∃ j ts, r.parentsOf? j = some ts ∧ i ∈ ts

/-- Every number in the registry of a link was given to a block that the link declared. -/
theorem Registry.Genealogy.exists_of_mentions {r : Registry} {bs : List NamedBlock}
    (h : r.Genealogy bs) {i : BlockId} (hi : r.Mentions i) : ∃ b ∈ bs, b.head.id = some i := by
  rcases hi with ⟨name, hi⟩ | hi | ⟨j, ts, hts, hi⟩
  · obtain ⟨b, hb, -, -, hbi⟩ := h.get_given name i hi
    exact ⟨b, hb, hbi⟩
  · obtain ⟨ts, hts⟩ := Option.isSome_iff_exists.mp hi
    obtain ⟨b, hb, hbi, -⟩ := h.parents_given i ts hts
    exact ⟨b, hb, hbi⟩
  · obtain ⟨_, _, _, hgiven⟩ := h.parents_given j ts hts
    obtain ⟨-, b, hb, -, -, hbi⟩ := hgiven i hi
    exact ⟨b, hb, hbi⟩

/-- The blocks declared along a chain have numbers that its link drew. -/
theorem exists_declarations_range {d : Node} {l : Linked} {s s' : Nat} (hu : d.Unnumbered)
    (h : linkNode d s = .ok (l, s')) :
    ∃ bs, d.declarations s = .ok bs ∧
      ∀ b ∈ bs, ∃ i : Nat, b.head.id = some i ∧ s < i ∧ i ≤ s' := by
  refine linkNode_induction (motive := fun d s _ s' ↦ d.Unnumbered → ∃ bs,
    d.declarations s = .ok bs ∧ ∀ b ∈ bs, ∃ i : Nat, b.head.id = some i ∧ s < i ∧ i ≤ s')
    ?base ?inherit d h hu
  case base =>
    intro ns p s ns' s' hhead hns hu
    exact ⟨_, declarations_group hhead hns p,
      ((unnumbered_group.mp hu).expanded hns).declare.numbered⟩
  case inherit =>
    intro f d q ns p s ns' s' overrides parent s'' l hns hparent ih _ hu
    obtain ⟨hd, hrest⟩ := unnumberedAll_cons.mp (unnumbered_group.mp hu)
    have hd := unnumbered_inherits.mp hd
    have hdeclared := (hrest.expanded hns).declare
    obtain ⟨_, _, hsound⟩ := Linked.sound hd hparent
    obtain ⟨bs, hbs, hrange⟩ := ih hd
    refine ⟨_, declarations_inherits hns hbs, List.forall_mem_append.mpr ⟨fun b hb ↦ ?_, ?_⟩⟩
    · obtain ⟨i, hi, hlt, hle⟩ := hdeclared.numbered b hb
      exact ⟨i, hi, hlt, Nat.le_trans hle hsound.le⟩
    · intro b hb
      obtain ⟨i, hi, hlt, hle⟩ := hrange b hb
      exact ⟨i, hi, Nat.lt_of_le_of_lt hdeclared.le hlt, hle⟩

theorem Linked.inherits_of_linkNode {f : Reference} {e : Option Node} {q p : Position}
    {ns : List Node} {l : Linked} {s s' : Nat}
    (h : linkNode (.group ⟨.inherits f e q :: ns, p⟩) s = .ok (l, s')) : l.inherits := by
  cases e with
  | none => exact absurd h linkNode_inherits_none_ne_ok
  | some e =>
    obtain ⟨-, _, _, _, _, -, _, -, hl⟩ := linkNode_inherits_eq_ok.mp h
    obtain ⟨-, rfl⟩ := Linked.inherit_eq_ok.mp hl
    rfl

/-- The blocks declared along a chain are those of the first document, expanded, and others with
later numbers. -/
theorem exists_later_declarations {ns : List Node} {q : Position} {lP : Linked} {s s' : Nat}
    (hu : UnnumberedAll ns) (hP : linkNode (.group ⟨ns, q⟩) s = .ok (lP, s')) :
    UnnumberedAll (ownStatements ns) ∧ ∃ ms s₁ later,
      expandAll (ownStatements ns) s = .ok (ms, s₁) ∧
      declarations (.group ⟨ns, q⟩) s =
        .ok (blocksAll (declareAll ms (s₁, .empty)).1 ++ later) ∧
      ∀ b ∈ later, ∃ i : Nat, b.head.id = some i ∧ s₁ < i := by
  by_cases hhead : ∀ n ∈ ns.head?, n.isInherits = false
  · obtain ⟨-, ms, s₁, hms, -, -⟩ := (linkNode_group_eq_ok hhead).mp hP
    rw [ownStatements_of_head hhead]
    exact ⟨hu, ms, s₁, [], hms, by rw [declarations_group hhead hms, List.append_nil], by simp⟩
  · obtain ⟨g, e, r, rest, rfl⟩ := exists_of_not_head hhead
    cases e with
    | none => exact absurd hP linkNode_inherits_none_ne_ok
    | some e =>
      obtain ⟨-, ms, s₁, hms, _, -, parent, hparent, -⟩ := linkNode_inherits_eq_ok.mp hP
      obtain ⟨he, hrest⟩ := unnumberedAll_cons.mp hu
      obtain ⟨later, hdeclarations, hlater, -⟩ :=
        exists_genealogy (unnumbered_inherits.mp he) hparent
      refine ⟨hrest, ms, s₁, later, hms, declarations_inherits hms hdeclarations, fun b hb ↦ ?_⟩
      obtain ⟨i, hi, hlt⟩ := hlater b hb
      exact ⟨i, hi, Nat.lt_of_le_of_lt (le_declareAll ms s₁ .empty) hlt⟩

/-- The numbers that are drawn for the document of an include site, if it inherits, are not in the
registry of the including document. -/
theorem ComesTo.exists_not_mentions {f : Reference} {d : Node} {b : Option Block} {p q : Position}
    {ns : List Node} {s t s' : Nat} {lP : Linked} (hu : (Node.group ⟨ns, q⟩).Unnumbered)
    (hP : linkNode (.group ⟨ns, q⟩) s = .ok (lP, s'))
    (h : ComesTo (.includes f (some d) b p) (ownStatements ns) s t) :
    ∃ (b' : Option Block) (t₁ : Nat) (l : Linked) (t₂ : Nat),
      expandBody b t = .ok (b', t₁) ∧ linkNode d t₁ = .ok (l, t₂) ∧
      (l.inherits → ∀ i : Nat, t₁ < i → i ≤ t₂ → ¬lP.declared.Mentions i) := by
  obtain ⟨hns, ms, s₁, later, hms, hbs, hlater⟩ :=
    exists_later_declarations (unnumbered_group.mp hu) hP
  obtain ⟨_, hbs', -, hgenealogy⟩ := exists_genealogy hu hP
  rw [hbs] at hbs'
  cases hbs'
  obtain ⟨b', t₁, l, t₂, hb, hl, -, hle, havoids⟩ := h.exists_drawn hns hms
  refine ⟨b', t₁, l, t₂, hb, hl, fun hinherits i hlt hi hmentions ↦ ?_⟩
  obtain ⟨c, hc, hci⟩ := hgenealogy.exists_of_mentions hmentions
  rcases List.mem_append.mp hc with hc | hc
  · have := (havoids hinherits).declareAll (hns.expanded hms) hle c hc i hci
    omega
  · obtain ⟨j, hj, hlt'⟩ := hlater c hc
    rw [hci, Option.some_inj] at hj
    have hafter : t₂ < i := hj ▸ Nat.lt_of_le_of_lt hle hlt'
    omega

/-- A linked document without a parent has in it what became of an include site. -/
theorem ComesTo.exists_fill_root {site n : Node} {ns : List Node} {q : Position} {lP : Linked}
    {s s' t t' : Nat} (h : ComesTo site (ownStatements ns) s t)
    (hP : linkNode (.group ⟨ns, q⟩) s = .ok (lP, s')) (hlP : lP.inherits = false)
    (hsite : expand site t = .ok (n, t')) :
    ∃ (K : Hole) (n' : Node), lP.root.nodes = K.fill [n'] ∧ bareAll [n'] = bareAll [n] := by
  have hhead : ∀ n ∈ ns.head?, n.isInherits = false := by
    by_contra hhead
    obtain ⟨_, _, _, _, rfl⟩ := exists_of_not_head hhead
    simp [Linked.inherits_of_linkNode hP] at hlP
  obtain ⟨-, ms, s₁, hms, rfl, -⟩ := (linkNode_group_eq_ok hhead).mp hP
  rw [ownStatements_of_head hhead] at h
  obtain ⟨K, m, _, hm, rfl⟩ := h.exists_fill hms
  rw [hsite] at hm
  cases hm
  exact K.exists_declareAll_fill n _

end Templating
