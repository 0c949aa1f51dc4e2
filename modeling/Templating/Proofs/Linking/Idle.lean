import Templating.Proofs.Linking.Chain
import Templating.Proofs.Linking.Marks

/-!
# Documents that change nothing

An inheriting document that only adds nothing to blocks of its parent can be left out of a chain
(`link_chain_idle`). Its blocks take up numbers, so the blocks of the documents behind it are
numbered otherwise; and they get lineages, which no name leads to.
-/

namespace Templating

open Node

/-! ### Idle documents -/

namespace Node

/-- The node is a named block that adds nothing to the blocks of its name. -/
def isIdle : Node → Bool
  | .block h [] => h.mode != .replace
  | _ => false

/-- Each of the nodes is a named block that adds nothing. -/
def Idle (ns : List Node) : Prop := ∀ n ∈ ns, n.isIdle

instance (ns : List Node) : Decidable (Idle ns) :=
  inferInstanceAs (Decidable (∀ n ∈ ns, n.isIdle))

/-- All blocks are empty and none is in replace mode. -/
def IdleBlocks (ns : List Node) : Prop :=
  ∀ b ∈ blocksAll ns, b.nodes = [] ∧ b.head.mode ≠ .replace

theorem exists_block_of_isIdle {n : Node} (h : n.isIdle) :
    ∃ k, n = .block k [] ∧ k.mode ≠ .replace := by
  cases n with
  | block k ns =>
    cases ns with
    | nil => exact ⟨k, rfl, by simpa [isIdle] using h⟩
    | cons => cases h
  | _ => cases h

end Node

namespace Node.Idle

variable {ns : List Node}

theorem of_cons {n : Node} (h : Idle (n :: ns)) :
    (∃ k, n = .block k [] ∧ k.mode ≠ .replace) ∧ Idle ns := by
  unfold Idle at h
  rw [List.forall_mem_cons] at h
  exact ⟨exists_block_of_isIdle h.1, h.2⟩

theorem standalone (h : Idle ns) : Standalone ns := by
  induction ns with
  | nil => simp [Standalone, listingAll]
  | cons n ns ih =>
    obtain ⟨⟨k, rfl, -⟩, hns⟩ := h.of_cons
    simpa [Standalone, listingAll, listing, isInherits, isInclusion] using ih hns

theorem idleBlocks (h : Idle ns) : IdleBlocks ns := by
  induction ns with
  | nil => simp [IdleBlocks]
  | cons n ns ih =>
    obtain ⟨⟨k, rfl, hk⟩, hns⟩ := h.of_cons
    simpa [IdleBlocks, hk] using ih hns

theorem topLevelAll_eq (h : Idle ns) : topLevelAll ns = ns := by
  induction ns with
  | nil => rfl
  | cons n ns ih =>
    obtain ⟨⟨k, rfl, -⟩, hns⟩ := h.of_cons
    rw [topLevelAll, topLevel_of_not_group rfl, ih hns, List.singleton_append]

theorem isBlock (h : Idle ns) {n : Node} (hn : n ∈ ns) : n.isBlock := by
  obtain ⟨k, rfl, -⟩ := exists_block_of_isIdle (h n hn)
  rfl

theorem topMixinsAll_eq (h : Idle ns) : topMixinsAll ns = [] := by
  rw [topMixinsAll_eq_filter, h.topLevelAll_eq, List.filter_eq_nil_iff]
  intro n hn
  obtain ⟨k, rfl, -⟩ := exists_block_of_isIdle (h n hn)
  simp [isMixinDefinition]

end Node.Idle

namespace Node.IdleBlocks

variable {ns ms : List Node}

theorem congr (h : bareAll ms = bareAll ns) (hns : IdleBlocks ns) : IdleBlocks ms := by
  intro b hb
  obtain ⟨c, hc, hhead, hnodes⟩ := exists_block_of_mapHeadsAll_eq h hb
  obtain ⟨hnil, hmode⟩ := hns c hc
  have hbare : b.head.bare.mode = c.head.bare.mode := congrArg BlockHead.mode hhead
  refine ⟨?_, fun hb ↦ hmode (hbare.symm.trans hb)⟩
  rw [hnil] at hnodes
  exact mapHeadsAll_eq_nil_iff.mp hnodes

/-- Idle blocks are not registered. -/
theorem declareAll_registry (h : IdleBlocks ns) (s : Nat) :
    (declareAll ns (s, .empty)).2.2 = .empty := by
  rw [Node.declareAll_registry]
  have hidle := h.congr (bareAll_declareAll ns (s, .empty))
  unfold IdleBlocks at hidle
  generalize blocksAll (declareAll ns (s, .empty)).1 = bs at hidle
  induction bs with
  | nil => rfl
  | cons b bs ih =>
    rw [List.forall_mem_cons] at hidle
    have henter : Registry.empty.enter b.head = .empty := by
      unfold Registry.enter
      cases b.head.id <;> simp [hidle.1.2]
    rw [List.foldl_cons, henter]
    exact ih hidle.2

/-- Idle blocks leave the parent as it is. -/
theorem parent_mergeAll (h : IdleBlocks ns) (r : Registry) (m : Merging) :
    (mergeAll r [] ns m).2.parent = m.parent := by
  have hidle := h.congr (bareAll_mergeAll_fst r ns m)
  rw [Templating.parent_mergeAll]
  have hbs : ∀ b ∈ outermostAll [] (mergeAll r [] ns m).1, b.nodes = [] ∧ b.head.mode ≠ .replace :=
    fun b hb ↦ hidle b (mem_blocksAll_of_mem_outermostAll hb)
  generalize outermostAll [] (mergeAll r [] ns m).1 = bs at hbs
  induction bs with
  | nil => rfl
  | cons b bs ih =>
    rw [List.forall_mem_cons] at hbs
    have happly : r.apply m.parent b = m.parent := by
      rw [Registry.apply, amendAll_eq_overrideAll]
      refine mapBlocksAll_eq_self fun c _ ↦ ?_
      cases hm : b.head.mode with
      | replace => exact absurd hm hbs.1.2
      | append => simp [hbs.1.1, Mode.combine]
      | prepend => simp [hbs.1.1, Mode.combine]
    rw [List.foldl_cons, happly]
    exact ih hbs.2

end Node.IdleBlocks

/-! ### A merge of an idle document -/

/-- The numbers up to `s` stay, and `n` numbers are left out after them. -/
def skipAfter (s n : Nat) (i : Nat) : Nat := if i ≤ s then i else i + n

theorem skipAfter_injective (s n : Nat) : Function.Injective (skipAfter s n) := by
  intro i j h
  unfold skipAfter at h
  split at h <;> split at h <;> omega

theorem skipAfter_shifts (s n : Nat) : Shifts (skipAfter s n) s (s + n) := by
  intro i hi
  unfold skipAfter
  split <;> omega

/-- The lineages of an idle document are those of numbers that no renumbered block has. -/
theorem Linked.Renames.idle {f : Nat → Nat} {l parent l' : Linked} (h : l.Renames f parent)
    {child : List Node} {r : Registry} {s s' : Nat} (hc : Declared s child r s')
    (hr : r = .empty) (hidle : IdleBlocks child) (hmixins : topMixinsAll child = [])
    (hskip : ∀ i : Nat, f i ≤ s ∨ s' < f i) {overrides : List (String × Position)}
    (hl : parent.inherit child r overrides = .ok l') : l.Renames f l' := by
  obtain ⟨-, rfl⟩ := Linked.inherit_eq_ok.mp hl
  have hbare := bareAll_mergeAll_fst parent.declared child ⟨parent.root.nodes, r⟩
  have hnone : topMixinsAll (mergeAll parent.declared [] child ⟨parent.root.nodes, r⟩).1 = [] := by
    have htop := bareAll_topMixinsAll_congr hbare
    rw [hmixins] at htop
    exact mapHeadsAll_eq_nil_iff.mp htop
  refine ⟨?_, ?_, fun i ↦ ?_⟩
  · rw [hnone, hidle.parent_mergeAll, List.nil_append]
    exact h.root
  · have hblocks := blocks_lineage_mergeAll parent.declared [] child ⟨parent.root.nodes, r⟩
    simp only [hr] at hblocks
    simp only [Registry.overlay, hr, hblocks]
    exact h.declared.blocks
  · have hnone : (mergeAll parent.declared [] child ⟨parent.root.nodes, r⟩).2.lineage.parentsOf?
        (f i) = none := by
      rw [Option.eq_none_iff_forall_ne_some]
      intro ts hts
      obtain ⟨b, hb, hbi, -⟩ := hc.exists_of_parentsOf? hts
      have hrange := hc.range (mem_blocksAll_of_mem_outermostAll hb) hbi
      have := hskip i
      omega
    rw [Registry.parentsOf?_overlay, hnone, Option.none_or, h.declared.parentsOf?]

/-! ### Chains with an idle document -/

/-- The link that goes along one document more gives the same result up to numbers. Numbers up to
`s` are the same; if the document is empty (`n`), all of them are. -/
def LinkedBeside (s : Nat) (isEmpty : Prop) (l l' : Linked) : Prop :=
  ∃ f : BlockId → BlockId, Function.Injective f ∧ (∀ i : Nat, i ≤ s → f i = i) ∧
    (isEmpty → f = id) ∧ l.Renames f l'

/-- An idle document on top of a document. -/
theorem linkNode_idle {d : Node} (hd : d.Unlinked) {e : Extension} (hu : UnlinkedAll e.nodes)
    (hidle : Idle e.nodes)
    (hnames : ∀ l, link d = .ok l → ∀ b ∈ blocksAll e.nodes,
      ∃ c ∈ blocksAll l.root.nodes, c.head.name = b.head.name) (s : Nat) :
    Outcomes Eq (fun p q ↦ LinkedBeside s (e.nodes = []) p.1 q.1) (linkNode d s)
      (linkNode (.group ⟨.inherits e.file (some d) e.statement :: e.nodes, e.position⟩) s) := by
  have hexp := expandAll_eq_ok hidle.standalone s
  have hfirst := firstInheritAll_eq_none fun m hm ↦ (hidle.standalone m hm).1
  have hbare := bareAll_declareAll e.nodes (s, .empty)
  obtain ⟨os, hos, hover⟩ := overridesAll_eq_ok fun m hm ↦
    .inr (hidle.isBlock (hidle.topLevelAll_eq ▸ hm))
  have hc := (linkCases_sound.expandAll e.nodes hexp hu.unnumbered).declare
  have hchild := hidle.idleBlocks.congr hbare
  have hmixins : topMixinsAll (declareAll e.nodes (s, .empty)).1 = [] := by
    have htop := bareAll_topMixinsAll_congr hbare
    rw [hidle.topMixinsAll_eq] at htop
    exact mapHeadsAll_eq_nil_iff.mp htop
  obtain ⟨n, hn⟩ := Nat.exists_eq_add_of_le hc.le
  have hlink := (documentCases_related (skipAfter_injective s n)).document d hd s (s + n)
    (skipAfter_shifts s n)
  rw [linkNode_inherits_of_ok hfirst hexp ((overridesAll_congr hbare).trans hos), hn,
    ← bind_pure (linkNode d s)]
  refine hlink.bind fun p q hr hp _ ↦ ?_
  obtain ⟨hr, -⟩ := hr.1
  -- the names are those of the parent's link, whatever numbers were drawn before
  have hfound : ∀ o ∈ os, ∃ b ∈ blocksAll (mergeAll q.1.declared []
      (declareAll e.nodes (s, .empty)).1
      ⟨q.1.root.nodes, (declareAll e.nodes (s, .empty)).2.2⟩).2.parent, b.head.name = o.1 := by
    intro o ho
    obtain ⟨b, hb, hbo⟩ := hover o ho
    obtain ⟨l, hl, hrl⟩ := exists_link_of_linkNode hd hp
    rw [hchild.parent_mergeAll, hr.exists_name_iff, hrl.exists_name_iff, ← hbo]
    exact hnames l hl b hb
  obtain ⟨l, hl⟩ : ∃ l, q.1.inherit (declareAll e.nodes (s, .empty)).1
      (declareAll e.nodes (s, .empty)).2.2 os = .ok l := ⟨_, Linked.inherit_eq_ok.mpr ⟨hfound, rfl⟩⟩
  rw [hl]
  refine .ok ⟨_, skipAfter_injective s n, ?_, ?_, hr.idle hc
    (hidle.idleBlocks.declareAll_registry s) hchild hmixins ?_ hl⟩
  · intro i hi
    simp [skipAfter, hi]
  · intro hnil
    have hzero : n = 0 := by
      rw [hnil, declareAll_nil] at hn
      have hn : s = s + n := hn
      omega
    funext i
    simp [skipAfter, hzero]
  · intro i
    rw [hn]
    unfold skipAfter
    split
    · exact .inl ‹_›
    · right; omega

/-- What is declared from `s` on stays under a renaming of later numbers. -/
theorem rename_declareAll_eq_self {f : Nat → Nat} (hf : Function.Injective f) {ms : List Node}
    {s : Nat} (hms : mapHeadsAll (.rename f) ms = ms)
    (hfix : ∀ i : Nat, i ≤ (declareAll ms (s, .empty)).2.1 → f i = i) :
    mapHeadsAll (.rename f) (declareAll ms (s, .empty)).1 = (declareAll ms (s, .empty)).1 ∧
      Registry.Renames f (declareAll ms (s, .empty)).2.2 (declareAll ms (s, .empty)).2.2 := by
  have hs : ShiftsUpTo f s (declareAll ms (s, .empty)).2.1 s := fun i _ hi ↦ by rw [hfix i hi]
  have hnodes := (renumbers f ms s s .empty .empty hs).1
  have hregistry := declareAll_renames hf hs
  rw [hms] at hnodes hregistry
  exact ⟨hnodes.symm, hregistry⟩

/-- An idle document further down a chain. -/
theorem linkNode_chain_idle {e : Extension} {above above' below : List Extension} {base : Block}
    (hab : above'.map (·.nodes) = above.map (·.nodes))
    (hu : (chain (above ++ e :: below) base).Unlinked) (hidle : Idle e.nodes)
    (hnames : ∀ l, link (chain below base) = .ok l → ∀ b ∈ blocksAll e.nodes,
      ∃ c ∈ blocksAll l.root.nodes, c.head.name = b.head.name) (s : Nat) :
    Outcomes Eq (fun p q ↦ LinkedBeside s (e.nodes = []) p.1 q.1)
      (linkNode (chain (above' ++ below) base) s)
      (linkNode (chain (above ++ e :: below) base) s) := by
  induction above generalizing above' s with
  | nil =>
    obtain rfl := List.map_eq_nil_iff.mp hab
    obtain ⟨hd, hns⟩ := unlinkedAll_cons.mp (unlinked_group.mp hu)
    exact linkNode_idle (unlinked_inherits.mp hd) hns hidle hnames s
  | cons a above ih =>
    obtain ⟨a', rest, rfl, ha, hrest⟩ := List.map_eq_cons_iff.mp hab
    obtain ⟨hd, hns⟩ := unlinkedAll_cons.mp (unlinked_group.mp hu)
    simp only [chain, List.cons_append, List.foldr_cons, linkNode_inherits_apply, ha]
    refine (Outcomes.refl (checkInherits a.nodes)).bind fun _ _ _ _ _ ↦ ?_
    refine (Outcomes.refl (expandAll a.nodes s)).bind ?_
    rintro ⟨ms, s'⟩ _ rfl hexp _
    refine (Outcomes.refl (overridesAll _)).bind ?_
    rintro os _ rfl _ _
    refine (ih hrest (unlinked_inherits.mp hd) _).bind ?_
    rintro ⟨l, t⟩ ⟨l', t'⟩ ⟨f, hf, hfix, hid, hr⟩ - -
    have hE := linkCases_sound.expandAll a.nodes hexp hns.unnumbered
    have hle := hE.declare.le
    have hms : mapHeadsAll (.rename f) ms = ms := by
      apply mapHeadsAll_rename_eq_self
      · intro b hb i hi
        exact hfix i (Nat.le_trans (hE.range b hb i hi).2 (le_declareAll ms s' .empty))
      · intro b hb
        simp [linkCases_noMarks.expandAll a.nodes hexp hns b hb]
    obtain ⟨hchild, hregistry⟩ := rename_declareAll_eq_self hf hms hfix
    refine (hr.inherit hf hchild.symm hregistry os).bind fun m m' hm _ _ ↦
      .ok ⟨f, hf, ?_, hid, hm.1⟩
    exact fun i hi ↦ hfix i (Nat.le_trans hi hle)

/-- An inheriting document that holds only empty blocks in append or prepend mode, whose names are
there in its linked parent, can be left out of a chain: the shorter chain fails with the same error
or gives the same tree and registry, up to the numbers of blocks, and without any change if the
document has no blocks. Between the two chains the documents above (`above'`) may refer to other
files, as the one next to the idle document does. -/
theorem link_chain_idle {e : Extension} {above above' below : List Extension} {base : Block}
    (hab : above'.map (·.nodes) = above.map (·.nodes))
    (hu : (chain (above ++ e :: below) base).Unlinked) (hidle : Idle e.nodes)
    (hnames : ∀ l, link (chain below base) = .ok l → ∀ b ∈ blocksAll e.nodes,
      ∃ c ∈ blocksAll l.root.nodes, c.head.name = b.head.name) :
    Outcomes Eq
      (fun l l' ↦ (∃ f : BlockId → BlockId, Function.Injective f ∧ l.Renames f l') ∧
        (e.nodes = [] → l'.root = l.root ∧ l'.declared.blocks = l.declared.blocks))
      (link (chain (above' ++ below) base)) (link (chain (above ++ e :: below) base)) := by
  apply Outcomes.link
  rw [← bind_pure (linkNode _ 0), ← bind_pure (linkNode (chain (above ++ e :: below) base) 0)]
  refine (linkNode_chain_idle hab hu hidle hnames 0).bind ?_
  rintro ⟨l, t⟩ ⟨l', t'⟩ ⟨f, hf, -, hid, hr⟩ - -
  refine .ok ⟨⟨f, hf, hr⟩, fun hnil ↦ ?_⟩
  obtain rfl := hid hnil
  exact hr.eq_of_id

/-- A document that adds a line to the block of `titledBase`. -/
def lineExtension (file : String) : Extension :=
  ⟨.loaded file, ⟨none, 1⟩,
    [.block (.fresh "title" .append ⟨none, 1⟩) [.text "line" ⟨none, 1⟩]], ⟨none, 1⟩⟩

/-- A document that adds nothing to that block. -/
def idleExtension : Extension :=
  ⟨.loaded "base.tmpl", ⟨none, 1⟩,
    [.block (.fresh "title" .append ⟨none, 1⟩) [], .block (.fresh "title" .prepend ⟨none, 2⟩) []],
    ⟨none, 1⟩⟩

theorem link_chain_idle_titledBase :
    (chain [lineExtension "idle.tmpl", idleExtension] titledBase).Unlinked ∧
      Idle idleExtension.nodes ∧
      ∃ l l', link (chain [lineExtension "base.tmpl"] titledBase) = .ok l ∧
        link (chain [lineExtension "idle.tmpl", idleExtension] titledBase) = .ok l' ∧
        l.declared.get "title" = [2] ∧ l'.declared.get "title" = [4] ∧
        ∃ f : BlockId → BlockId, Function.Injective f ∧ l.Renames f l' := by
  have hu : (chain [lineExtension "idle.tmpl", idleExtension] titledBase).Unlinked := by decide
  have hidle : Idle idleExtension.nodes := by decide
  have hnames : ∀ l, link (chain [] titledBase) = .ok l → ∀ b ∈ blocksAll idleExtension.nodes,
      ∃ c ∈ blocksAll l.root.nodes, c.head.name = b.head.name := by
    intro l hl
    cases hl
    decide
  have houtcomes : Outcomes Eq _ (link (chain ([lineExtension "base.tmpl"] ++ []) titledBase))
      (link (chain ([lineExtension "idle.tmpl"] ++ idleExtension :: []) titledBase)) :=
    link_chain_idle rfl hu hidle hnames
  refine ⟨hu, hidle, _, _, rfl, rfl, by decide, by decide, ?_⟩
  obtain ⟨l, hl, hr, -⟩ := houtcomes.exists_ok
  cases hl
  exact hr

end Templating
