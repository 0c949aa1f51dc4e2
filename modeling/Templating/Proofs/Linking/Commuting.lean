import Templating.Proofs.Linking.Lineage
import Templating.Proofs.Linking.Swapping

/-!
# Overrides of different names

Two neighbouring blocks of an inheriting document that declare different names can change places
(`link_swaps`). Their overrides reach different blocks of the parent, since a number is a target of
one name only; and neither reaches the content of the other one, which consists of blocks of the
child. So the overrides commute, wherever their targets lie.
-/

namespace Templating

open Node

/-! ### Two overrides -/

/-- Overrides of different blocks commute if neither reaches the content of the other one. -/
theorem Node.overrideAll_comm {p q : BlockHead → Bool} {mode mode' : Mode}
    {content content' : List Node} (hpq : ∀ h, p h → q h = false)
    (hc : ∀ b ∈ blocksAll content, q b.head = false)
    (hc' : ∀ b ∈ blocksAll content', p b.head = false) (ns : List Node) :
    overrideAll q mode' content' (overrideAll p mode content ns) =
      overrideAll p mode content (overrideAll q mode' content' ns) := by
  have hself : overrideAll q mode' content' content = content :=
    mapBlocksAll_eq_self fun b hb ↦ by simp [hc b hb]
  have hself' : overrideAll p mode content content' = content' :=
    mapBlocksAll_eq_self fun b hb ↦ by simp [hc' b hb]
  unfold overrideAll rewriteAll at hself hself' ⊢
  let both (h : BlockHead) (xs : List Node) : Node :=
    .block h (if p h then mode.combine xs content else
      if q h then mode'.combine xs content' else xs)
  trans mapBlocksAll both ns
  · refine mapBlocksAll_mapBlocksAll fun b _ xs ↦ ?_
    cases hp : p b.head with
    | true => simp [both, hp, hpq _ hp, mapBlocksAll_combine, hself]
    | false => simp [both, hp]
  · refine (mapBlocksAll_mapBlocksAll fun b _ xs ↦ ?_).symm
    cases hp : p b.head with
    | true => simp [both, hp, hpq _ hp]
    | false => cases hq : q b.head <;> simp [both, hp, hq, mapBlocksAll_combine, hself']

/-- Overrides that commute one by one commute in rows. -/
theorem Registry.foldl_apply_comm {r : Registry} {as bs : List NamedBlock}
    (h : ∀ a ∈ as, ∀ b ∈ bs, ∀ ns, r.apply (r.apply ns a) b = r.apply (r.apply ns b) a)
    (ns : List Node) :
    bs.foldl r.apply (as.foldl r.apply ns) = as.foldl r.apply (bs.foldl r.apply ns) := by
  induction bs generalizing ns with
  | nil => rfl
  | cons b bs ih =>
    have hb : ∀ ns, r.apply (as.foldl r.apply ns) b = as.foldl r.apply (r.apply ns b) := by
      replace h : ∀ a ∈ as, ∀ ns, r.apply (r.apply ns a) b = r.apply (r.apply ns b) a :=
        fun a ha ↦ h a ha b List.mem_cons_self
      clear ih
      induction as with
      | nil => exact fun _ ↦ rfl
      | cons a as ih =>
        rw [List.forall_mem_cons] at h
        intro ns
        rw [List.foldl_cons, ih h.2, h.1, List.foldl_cons]
    rw [List.foldl_cons, hb, ih fun a ha b' hb' ↦ h a ha b' (List.mem_cons_of_mem b hb'),
      List.foldl_cons]

/-! ### Two merges -/

/-- The errors are the same, or they tell that one rule is broken. -/
def TemplateError.SameCode (e e' : TemplateError) : Prop :=
  e = e' ∨ ∃ c, e.code? = some c ∧ e'.code? = some c

theorem TemplateError.SameCode.of_eq {e e' : TemplateError} (h : e = e') : e.SameCode e' := .inl h

/-- Both documents inherit in the middle, or neither does. -/
theorem Node.Swaps.checkInherits {ns ms : List Node} (h : Swaps ns ms) :
    Outcomes TemplateError.SameCode
      (fun _ _ ↦ firstInheritAll ns = none ∧ firstInheritAll ms = none)
      (Templating.checkInherits ns) (Templating.checkInherits ms) := by
  have hsome := h.isSome_firstInheritAll
  unfold Templating.checkInherits
  cases hns : firstInheritAll ns <;> cases hms : firstInheritAll ms
  · exact .ok ⟨rfl, rfl⟩
  · simp [hns, hms] at hsome
  · simp [hns, hms] at hsome
  · exact .error (.inr ⟨_, rfl, rfl⟩)

/-- A merge fails for a block whose name is not found. -/
theorem Linked.code?_of_inherit_eq_error {parent : Linked} {child : List Node} {r : Registry}
    {overrides : List (String × Position)} {e : TemplateError}
    (h : parent.inherit child r overrides = .error e) : e.code? = some .unexpectedBlock := by
  unfold Linked.inherit at h
  simp only at h
  split at h
  · cases h
    rfl
  · cases h

section

variable {s s' s'' : Nat} {child ms : List Node} {r : Registry} {parent : Linked}
  {gs : List Generation} {bs : List NamedBlock}

/-- Overrides of different names commute. -/
theorem Linked.Sound.apply_comm (hp : parent.Sound s' s'' gs) (hg : parent.declared.Genealogy bs)
    (hc : Declared s child r s') {a b : NamedBlock} (ha : a ∈ blocksAll child)
    (hb : b ∈ blocksAll child) (hname : a.head.name ≠ b.head.name) (ns : List Node) :
    parent.declared.apply (parent.declared.apply ns a) b =
      parent.declared.apply (parent.declared.apply ns b) a := by
  simp only [Registry.apply, amendAll_eq_overrideAll]
  refine overrideAll_comm (fun h hha ↦ ?_) (fun c hca ↦ ?_) (fun c hcb ↦ ?_) ns
  · rw [Bool.eq_false_iff, ne_eq, BlockHead.isAmong_iff]
    rintro ⟨i, hi, hmem⟩
    obtain ⟨j, hj, hmem'⟩ := BlockHead.isAmong_iff.mp hha
    obtain rfl : j = i := Option.some.inj (hj.symm.trans hi)
    exact hname (hg.name_eq_of_mem_targets hmem' hmem)
  · exact hp.isAmong_child hc (mem_blocksAll_of_mem_nodes ha hca) _
  · exact hp.isAmong_child hc (mem_blocksAll_of_mem_nodes hb hcb) _

/-- The parent after the merge of a child in which blocks have changed places. -/
theorem Linked.Sound.parent_mergeAll_of_swaps (hp : parent.Sound s' s'' gs)
    (hg : parent.declared.Genealogy bs) (hc : Declared s child r s') (h : Swaps child ms)
    (r' : Registry) :
    (mergeAll parent.declared [] ms ⟨parent.root.nodes, r'⟩).2.parent =
      (mergeAll parent.declared [] child ⟨parent.root.nodes, r⟩).2.parent := by
  have hm := (hp.merged hc).marked
  obtain ⟨xs, as, bs, ys, hxs, hys, hdiff⟩ := (h.fst_mergeAll parent.declared
    ⟨parent.root.nodes, r⟩ ⟨parent.root.nodes, r'⟩).exists_outermostAll
  have hmem : ∀ b ∈ as ++ bs,
      b ∈ blocksAll (mergeAll parent.declared [] child ⟨parent.root.nodes, r⟩).1 := by
    intro b hb
    apply mem_blocksAll_of_mem_outermostAll
    rw [hxs]
    exact List.mem_append_right _ (List.mem_append_left _ hb)
  rw [parent_mergeAll, parent_mergeAll, hxs, hys]
  simp only [List.foldl_append]
  rw [Registry.foldl_apply_comm fun a ha b hb ↦ hp.apply_comm hg hm
    (hmem a (List.mem_append_left _ ha)) (hmem b (List.mem_append_right _ hb)) (hdiff a ha b hb)]

/-- The merges of two children of which one is the other with blocks at changed places, and other
numbers that the parent does not know. -/
theorem Linked.Sound.inherit_swaps (hp : parent.Sound s' s'' gs)
    (hg : parent.declared.Genealogy bs)
    (hmarks : ∀ b ∈ blocksAll parent.root.nodes, ∀ ts ∈ b.head.parents, ∀ t : Nat, t ∈ ts → s' < t)
    (hc : Declared s child r s') (h : Swaps child ms) {f : Nat → Nat} (hf : Function.Injective f)
    (hfix : ∀ i : Nat, s' < i → f i = i) (r' : Registry) {os os' : List (String × Position)}
    (hos : os.Perm os') :
    Outcomes TemplateError.SameCode (fun l l' ↦ l'.root = l.root.rename f)
      (parent.inherit child r os)
      (parent.inherit (mapHeadsAll (.rename f) ms) r' os') := by
  have htargets : ∀ m, parent.declared.targets m = (parent.declared.targets m).map f := fun m ↦ by
    have hsame : ∀ i ∈ parent.declared.targets m, f i = i := fun i hi ↦
      hfix i (hp.lt_target m i hi)
    simpa using (List.map_congr_left hsame).symm
  have hroot : parent.root.nodes = mapHeadsAll (.rename f) parent.root.nodes := by
    refine (mapHeadsAll_rename_eq_self (fun b hb i hi ↦ ?_) fun b hb ts hts t ht ↦ ?_).symm
    · exact hfix i (hp.range hb hi).1
    · exact hfix t (hmarks b hb ts hts t ht)
  have hchild := fst_mergeAll_rename htargets [] ms ⟨parent.root.nodes, r'⟩
    ⟨parent.root.nodes, r'⟩
  have hparent := parent_mergeAll_rename htargets hf [] ms ⟨parent.root.nodes, r'⟩
    ⟨parent.root.nodes, r'⟩ hroot
  rw [hp.parent_mergeAll_of_swaps hg hc h r'] at hparent
  have htop := (h.fst_mergeAll parent.declared ⟨parent.root.nodes, r⟩
    ⟨parent.root.nodes, r'⟩).topMixinsAll_eq
  have hfound : (∀ o ∈ os', ∃ b ∈ blocksAll (mergeAll parent.declared []
        (mapHeadsAll (.rename f) ms) ⟨parent.root.nodes, r'⟩).2.parent, b.head.name = o.1) ↔
      ∀ o ∈ os, ∃ b ∈ blocksAll (mergeAll parent.declared [] child
        ⟨parent.root.nodes, r⟩).2.parent, b.head.name = o.1 := by
    simp only [hparent, exists_name_rename_iff, hos.mem_iff]
  cases hl : parent.inherit child r os with
  | ok l =>
    obtain ⟨hnames, rfl⟩ := Linked.inherit_eq_ok.mp hl
    rw [Linked.inherit_eq_ok.mpr ⟨hfound.mpr hnames, rfl⟩]
    refine .ok ?_
    simp only [hparent, hchild, ← mapHeadsAll_topMixinsAll, htop, ← mapHeadsAll_append]
    rfl
  | error e =>
    cases hl' : parent.inherit (mapHeadsAll (.rename f) ms) r' os' with
    | ok l' =>
      have hok := Linked.inherit_eq_ok.mpr ⟨hfound.mp (Linked.inherit_eq_ok.mp hl').1, rfl⟩
      rw [hl] at hok
      cases hok
    | error e' =>
      exact .error (.inr ⟨_, Linked.code?_of_inherit_eq_error hl,
        Linked.code?_of_inherit_eq_error hl'⟩)

end

/-! ### Two links -/

/-- Two neighbouring blocks at the top of an inheriting document change places. The document
includes no files, and no name is declared in both blocks. Then the links of both versions fail
with the same error, or for a breach of the same rule; or they give the same tree, up to the numbers
of the blocks. -/
theorem link_swaps {f : Reference} {d : Node} {q p : Position} {ns ms : List Node}
    (hu : Node.Unlinked (.group ⟨.inherits f (some d) q :: ns, p⟩))
    (hi : hasInclusionAll ns = false) (h : Swaps ns ms) :
    Outcomes TemplateError.SameCode
      (fun l l' ↦ ∃ g : BlockId → BlockId, Function.Injective g ∧ l'.root = l.root.rename g)
      (link (.group ⟨.inherits f (some d) q :: ns, p⟩))
      (link (.group ⟨.inherits f (some d) q :: ms, p⟩)) := by
  obtain ⟨hd, hns⟩ := unlinkedAll_cons.mp (unlinked_group.mp hu)
  replace hd := unlinked_inherits.mp hd
  apply Outcomes.link
  rw [linkNode_inherits_apply, linkNode_inherits_apply]
  refine h.checkInherits.bind fun _ _ hfirst _ _ ↦ ?_
  have hexp := expandAll_eq_ok (standalone_of_hasInclusionAll hi hfirst.1) 0
  rw [hexp, expandAll_eq_ok
    (standalone_of_hasInclusionAll (h.hasInclusionAll_eq.trans hi) hfirst.2) 0]
  change Outcomes _ _ (overridesAll (declareAll ns (0, .empty)).1 >>= _)
    (overridesAll (declareAll ms (0, .empty)).1 >>= _)
  rw [overridesAll_congr (bareAll_declareAll ns (0, .empty)),
    overridesAll_congr (bareAll_declareAll ms (0, .empty))]
  refine (h.overridesAll.imp_error fun _ _ ↦ .of_eq).bind fun os os' hos _ _ ↦ ?_
  obtain ⟨g, ms', hr⟩ := h.exists_renumbered hns 0 .empty .empty
  simp only [hr.last, hr.nodes]
  refine ((Outcomes.refl (linkNode d _)).imp_error fun _ _ ↦ .of_eq).bind ?_
  rintro ⟨parent, t⟩ _ rfl hparent -
  obtain ⟨gs, -, hp⟩ := Linked.sound hd.unnumbered hparent
  obtain ⟨bs, -, -, hg⟩ := exists_genealogy hd.unnumbered hparent
  have hc := (linkCases_sound.expandAll ns hexp hns.unnumbered).declare
  refine (hp.inherit_swaps hg (lt_of_mem_parents hd hparent) hc hr.swaps hr.injective
    (fun i hlt ↦ hr.fixes i (.inr hlt)) _ hos).bind fun l l' hl _ _ ↦ ?_
  exact .ok ⟨g, hr.injective, hl⟩

/-- A block with another one inside. -/
def nestedBase : Node :=
  .group ⟨[.block (.fresh "outer" .replace ⟨none, 1⟩) [.text "o" ⟨none, 1⟩,
    .block (.fresh "inner" .replace ⟨none, 2⟩) [.text "i" ⟨none, 2⟩]]], ⟨none, 1⟩⟩

/-- Adds a block of its own to the inner block of `nestedBase`. -/
def innerOverride : Node :=
  .block (.fresh "inner" .append ⟨none, 2⟩)
    [.block (.fresh "deep" .replace ⟨none, 2⟩) [.text "d" ⟨none, 2⟩]]

/-- Puts a text into the outer block. -/
def outerOverride : Node := .block (.fresh "outer" .prepend ⟨none, 3⟩) [.text "p" ⟨none, 3⟩]

theorem link_swaps_nestedBase :
    Node.Unlinked (.group ⟨[.inherits (.loaded "base.tmpl") (some nestedBase) ⟨none, 1⟩,
        innerOverride, outerOverride], ⟨none, 1⟩⟩) ∧
      hasInclusionAll [innerOverride, outerOverride] = false ∧
      Swaps [innerOverride, outerOverride] [outerOverride, innerOverride] ∧
      ∃ l l', link (.group ⟨[.inherits (.loaded "base.tmpl") (some nestedBase) ⟨none, 1⟩,
          innerOverride, outerOverride], ⟨none, 1⟩⟩) = .ok l ∧
        link (.group ⟨[.inherits (.loaded "base.tmpl") (some nestedBase) ⟨none, 1⟩,
          outerOverride, innerOverride], ⟨none, 1⟩⟩) = .ok l' ∧
        l.declared.get "deep" = [2] ∧ l'.declared.get "deep" = [3] ∧
        ∃ g : BlockId → BlockId, Function.Injective g ∧ l'.root = l.root.rename g := by
  have hu : Node.Unlinked (.group ⟨[.inherits (.loaded "base.tmpl") (some nestedBase) ⟨none, 1⟩,
      innerOverride, outerOverride], ⟨none, 1⟩⟩) := by decide
  have hi : hasInclusionAll [innerOverride, outerOverride] = false := by decide
  have hs : Swaps [innerOverride, outerOverride] [outerOverride, innerOverride] :=
    .swap [] rfl rfl (by decide)
  refine ⟨hu, hi, hs, _, _, rfl, rfl, by decide, by decide, ?_⟩
  obtain ⟨l, hl, g, hg, hroot⟩ := (link_swaps hu hi hs).exists_ok
  cases hl
  exact ⟨g, hg, hroot⟩

end Templating
