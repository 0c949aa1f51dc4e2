import Templating.Proofs.Linking.Marks
import Templating.Proofs.Node.Documents

/-!
# Neighbours that change places

Two neighbouring blocks at the top of a document, with different names in them, change places
(`Node.Swaps`). Each pass of a link keeps the documents alike: the swapped blocks get other
numbers, and one merge of them is performed before the other.
-/

namespace Templating

/-! ### Numbers that change places -/

/-- The numbers after `s` up to `mid` change places with those after `mid` up to `last`. -/
def exchange (s mid last : Nat) (i : Nat) : Nat :=
  if s < i ∧ i ≤ mid then i + (last - mid)
  else if mid < i ∧ i ≤ last then i - (mid - s)
  else i

section

variable {s mid last : Nat}

theorem exchange_injective (hs : s ≤ mid) (hm : mid ≤ last) :
    Function.Injective (exchange s mid last) := by
  intro i j h
  unfold exchange at h
  grind

theorem exchange_fixes (hs : s ≤ mid) (hm : mid ≤ last) {i : Nat} (hi : i ≤ s ∨ last < i) :
    exchange s mid last i = i := by
  unfold exchange
  grind

theorem exchange_shifts_left : ShiftsUpTo (exchange s mid last) s mid (s + (last - mid)) := by
  intro i hi hle
  unfold exchange
  grind

theorem exchange_shifts_right (hs : s ≤ mid) : ShiftsUpTo (exchange s mid last) mid last s := by
  intro i hi hle
  unfold exchange
  grind

theorem SameGap.eq_add {t : Nat} (h : SameGap mid last s t) (hm : mid ≤ last) :
    t = s + (last - mid) := by
  unfold SameGap at h
  omega

theorem SameGap.eq_last {t : Nat} (h : SameGap s mid (s + (last - mid)) t) (hm : mid ≤ last) :
    t = last := by
  unfold SameGap at h
  omega

end

namespace Node

mutual

/-- A node stands for another file or holds one that does. Loaded documents are not entered. -/
def hasInclusion : Node → Bool
  | .includes .. => true
  | .includesRaw .. => true
  | .group ⟨ns, _⟩ => hasInclusionAll ns
  | .block _ ns => hasInclusionAll ns
  | .mixin _ (some ⟨ns, _⟩) => hasInclusionAll ns
  | .filter _ ⟨ns, _⟩ => hasInclusionAll ns
  | .tag _ ⟨ns, _⟩ => hasInclusionAll ns
  | _ => false
  termination_by structural n => n

/-- Some of the nodes stands for another file or holds one that does. -/
def hasInclusionAll : List Node → Bool
  | [] => false
  | n :: ns => hasInclusion n || hasInclusionAll ns
  termination_by structural ns => ns

end

/-- The documents are the same, but for two neighbouring blocks at the top that have changed
places. No name stands in both blocks. -/
inductive Swaps : List Node → List Node → Prop where
  | swap {n m : Node} (ns : List Node) (hn : n.isBlock) (hm : m.isBlock)
    (hnames : ∀ name ∈ blockNames n, name ∉ blockNames m) : Swaps (n :: m :: ns) (m :: n :: ns)
  | group {inner inner' : List Node} (h : Swaps inner inner') (p : Position) (ns : List Node) :
    Swaps (.group ⟨inner, p⟩ :: ns) (.group ⟨inner', p⟩ :: ns)
  | cons (n : Node) {ns ns' : List Node} (h : Swaps ns ns') : Swaps (n :: ns) (n :: ns')

/-! ### Documents without inclusions -/

/-- Without inclusions and inherit statements a document refers to no file. -/
theorem standalone_of_hasInclusionAll {ns : List Node} (hi : hasInclusionAll ns = false)
    (hf : firstInheritAll ns = none) : Standalone ns := by
  induction ns using forest_induction with
  | nil => simp [Standalone, listingAll]
  | leaf n ns hn ih =>
    simp only [hasInclusionAll, firstInheritAll, Bool.or_eq_false_iff, Option.or_eq_none_iff]
      at hi hf
    have hhead : ∀ m ∈ n.listing, m.isInherits = false ∧ m.isInclusion = false := by
      cases n, hn using leaf_cases with
      | inherits => cases hf.1
      | includes => cases hi.1
      | includesRaw => cases hi.1
      | _ => simp [listing, listingBody, isInherits, isInclusion]
    simp only [Standalone, listingAll, List.forall_mem_append]
    exact ⟨hhead, ih hi.2 hf.2⟩
  | frame F inner ns ihi ih =>
    simp only [hasInclusionAll, firstInheritAll, Bool.or_eq_false_iff, Option.or_eq_none_iff]
      at hi hf
    simp only [Standalone, listingAll, List.forall_mem_append]
    refine ⟨?_, ih hi.2 hf.2⟩
    cases F with
    | includes => cases hi.1
    | _ =>
      simp only [framed, listing, listingBody, List.forall_mem_cons]
      exact ⟨⟨rfl, rfl⟩, ihi hi.1 hf.1⟩
  | block k inner ns ihi ih =>
    simp only [hasInclusionAll, firstInheritAll, Bool.or_eq_false_iff, Option.or_eq_none_iff]
      at hi hf
    simp only [Standalone, listingAll, listing, List.forall_mem_append, List.forall_mem_cons]
    exact ⟨⟨⟨rfl, rfl⟩, ihi hi.1 hf.1⟩, ih hi.2 hf.2⟩

theorem Swaps.hasInclusionAll_eq {ns ms : List Node} (h : Swaps ns ms) :
    hasInclusionAll ms = hasInclusionAll ns := by
  induction h with
  | swap => simp only [hasInclusionAll, Bool.or_left_comm]
  | group _ p ns ih => simp only [hasInclusionAll, hasInclusion, ih]
  | cons n _ ih => simp only [hasInclusionAll, ih]

theorem Swaps.isSome_firstInheritAll {ns ms : List Node} (h : Swaps ns ms) :
    (firstInheritAll ms).isSome = (firstInheritAll ns).isSome := by
  induction h with
  | swap => simp only [firstInheritAll, Option.isSome_or, Bool.or_left_comm]
  | group _ p ns ih => simp only [firstInheritAll, firstInherit, Option.isSome_or, ih]
  | cons n _ ih => simp only [firstInheritAll, Option.isSome_or, ih]

/-! ### The top of the document -/

theorem Swaps.topMixinsAll_eq {ns ms : List Node} (h : Swaps ns ms) :
    topMixinsAll ms = topMixinsAll ns := by
  induction h with
  | swap ns hn hm =>
    obtain ⟨k, inner, rfl⟩ := exists_block_of_isBlock hn
    obtain ⟨k', inner', rfl⟩ := exists_block_of_isBlock hm
    rfl
  | group _ p ns ih => simp only [topMixinsAll, topMixins, ih]
  | cons n _ ih => simp only [topMixinsAll, ih]

theorem overridesAll_cons (n : Node) (ns : List Node) :
    overridesAll (n :: ns) = (do
      let found ← overrides n
      let others ← overridesAll ns
      pure (found ++ others)) := by
  rw [overridesAll]
  cases overrides n with
  | error e => rfl
  | ok found => cases overridesAll ns <;> rfl

/-- The blocks at the top are the same, in another order. -/
theorem Swaps.overridesAll {ns ms : List Node} (h : Swaps ns ms) :
    Outcomes Eq List.Perm (Node.overridesAll ns) (Node.overridesAll ms) := by
  induction h with
  | swap ns hn hm =>
    obtain ⟨k, inner, rfl⟩ := exists_block_of_isBlock hn
    obtain ⟨k', inner', rfl⟩ := exists_block_of_isBlock hm
    simp only [Node.overridesAll, overrides]
    cases Node.overridesAll ns with
    | error e => exact .error rfl
    | ok others => exact .ok (.swap _ _ others)
  | group _ p ns ih =>
    rw [overridesAll_cons, overridesAll_cons]
    refine Outcomes.bind ih fun found found' hfound _ _ ↦ ?_
    refine (Outcomes.refl (Node.overridesAll ns)).bind ?_
    rintro others _ rfl - -
    exact .ok (hfound.append_right others)
  | cons n _ ih =>
    rw [overridesAll_cons, overridesAll_cons]
    refine (Outcomes.refl (overrides n)).bind ?_
    rintro found _ rfl - -
    exact ih.bind fun others others' hothers _ _ ↦ .ok (hothers.append_left found)

/-! ### Declaring -/

theorem blockNamesAll_congr {ns ms : List Node} (h : bareAll ns = bareAll ms) :
    blockNamesAll ns = blockNamesAll ms := by
  have hbare : ∀ ns, blockNamesAll (bareAll ns) = blockNamesAll ns :=
    blockNamesAll_mapHeadsAll fun _ ↦ rfl
  rw [← hbare ns, h, hbare ms]

theorem mem_listingAll_of_mem_blocksAll {ns : List Node} {b : NamedBlock}
    (hb : b ∈ blocksAll ns) : .block b.head b.nodes ∈ listingAll ns := by
  induction ns using forest_induction with
  | nil => cases hb
  | leaf n ns hn ih =>
    rw [blocksAll_cons, blocks_leaf hn, List.nil_append] at hb
    exact List.mem_append_right _ (ih hb)
  | frame F inner ns ihi ih =>
    rw [blocksAll_cons, blocks_framed, List.mem_append] at hb
    rw [listingAll, listing_framed]
    simp only [List.cons_append, List.mem_cons, List.mem_append]
    exact .inr (hb.imp (fun h ↦ .inr (ihi h)) ih)
  | block k inner ns ihi ih =>
    simp only [blocksAll_cons, blocks_block, List.cons_append, List.mem_cons,
      List.mem_append] at hb
    simp only [listingAll, listing, List.cons_append, List.mem_cons, List.mem_append]
    rcases hb with rfl | hb | hb
    · exact .inl rfl
    · exact .inr (.inl (ihi hb))
    · exact .inr (.inr (ih hb))

/-- Unlinked nodes have no numbers to be renamed. -/
theorem UnlinkedAll.rename_eq_self {ns : List Node} (h : UnlinkedAll ns) (f : BlockId → BlockId) :
    mapHeadsAll (.rename f) ns = ns := by
  have hnone : ∀ b ∈ blocksAll ns, b.head.id = none ∧ b.head.parents = none := by
    intro b hb
    simpa [isUnlinked] using h _ (mem_listingAll_of_mem_blocksAll hb)
  apply mapHeadsAll_rename_eq_self
  · intro b hb i hi
    rw [(hnone b hb).1] at hi
    cases hi
  · intro b hb ts hts
    rw [(hnone b hb).2] at hts
    cases hts

/-- Unlinked nodes get the same numbers from `s` and from `s'` on, up to the shift. -/
theorem UnlinkedAll.declareAll {ns : List Node} (h : UnlinkedAll ns) {f : Nat → Nat} {s s' : Nat}
    {r : Registry} (hs : ShiftsUpTo f s (declareAll ns (s, r)).2.1 s') (r' : Registry) :
    (Node.declareAll ns (s', r')).1 = mapHeadsAll (.rename f) (Node.declareAll ns (s, r)).1 ∧
      SameGap s (Node.declareAll ns (s, r)).2.1 s' (Node.declareAll ns (s', r')).2.1 := by
  have hr := renumbers f ns s s' r r' hs
  rwa [h.rename_eq_self f] at hr

/-- The numbers of a document whose blocks have changed places (`ms`), against those of the document
as it was (`ns`). -/
structure Renumbered (s : Nat) (r : Registry) (ns ms : List Node) (r' : Registry)
    (f : Nat → Nat) (ms' : List Node) : Prop where
  injective : Function.Injective f
  /-- Numbers drawn before and after stay. -/
  fixes : ∀ i : Nat, i ≤ s ∨ (declareAll ns (s, r)).2.1 < i → f i = i
  swaps : Swaps (declareAll ns (s, r)).1 ms'
  nodes : (declareAll ms (s, r')).1 = mapHeadsAll (.rename f) ms'
  last : (declareAll ms (s, r')).2.1 = (declareAll ns (s, r)).2.1

theorem Swaps.append_right {ns ms : List Node} (h : Swaps ns ms) (tail : List Node) :
    Swaps (ns ++ tail) (ms ++ tail) := by
  induction h with
  | swap ns hn hm hnames => exact .swap (ns ++ tail) hn hm hnames
  | group h p ns => exact .group h p (ns ++ tail)
  | cons n _ ih => exact .cons n ih

namespace Renumbered

variable {s : Nat} {r r' : Registry} {ns ms ms' : List Node} {f : Nat → Nat}

/-- More nodes before. -/
theorem cons {n : Node} (hn : UnlinkedAll [n])
    (h : Renumbered (declareAll [n] (s, r)).2.1 (declareAll [n] (s, r)).2.2 ns ms
      (declareAll [n] (s, r')).2.2 f ms') :
    Renumbered s r (n :: ns) (n :: ms) r' f ((declare n (s, r)).1 :: ms') := by
  have hle := le_declareAll [n] s r
  have hs : ShiftsUpTo f s (declareAll [n] (s, r)).2.1 s := fun i _ hi ↦ by
    rw [h.fixes i (.inl hi)]
  obtain ⟨hnodes, hgap⟩ := hn.declareAll hs r'
  have hpair : (declareAll [n] (s, r')).2 =
      ((declareAll [n] (s, r)).2.1, (declareAll [n] (s, r')).2.2) :=
    Prod.ext (Nat.add_right_cancel hgap) rfl
  refine ⟨h.injective, fun i hi ↦ h.fixes i (hi.imp_left fun h ↦ Nat.le_trans h hle),
    .cons _ h.swaps, ?_, ?_⟩
  · change (declareAll [n] (s, r')).1 ++ (declareAll ms (declareAll [n] (s, r')).2).1 = _
    rw [hpair, h.nodes, hnodes]
    rfl
  · change (declareAll ms (declareAll [n] (s, r')).2).2.1 = _
    rw [hpair]
    exact h.last

/-- More nodes behind. -/
theorem append_right (h : Renumbered s r ns ms r' f ms') {tail : List Node}
    (ht : UnlinkedAll tail) :
    Renumbered s r (ns ++ tail) (ms ++ tail) r' f
      (ms' ++ (declareAll tail (declareAll ns (s, r)).2).1) := by
  have hle := le_declareAll tail (declareAll ns (s, r)).2.1 (declareAll ns (s, r)).2.2
  have hs : ShiftsUpTo f (declareAll ns (s, r)).2.1
      (declareAll tail (declareAll ns (s, r)).2).2.1 (declareAll ns (s, r)).2.1 := fun i hi _ ↦ by
    rw [h.fixes i (.inr hi)]
  obtain ⟨hnodes, hgap⟩ := ht.declareAll hs (declareAll ms (s, r')).2.2
  have hpair : (declareAll ms (s, r')).2 =
      ((declareAll ns (s, r)).2.1, (declareAll ms (s, r')).2.2) := Prod.ext h.last rfl
  refine ⟨h.injective, fun i hi ↦ ?_, ?_, ?_, ?_⟩
  · rw [declareAll_append] at hi
    exact h.fixes i (hi.imp_right fun h ↦ Nat.lt_of_le_of_lt hle h)
  · rw [declareAll_append]
    exact h.swaps.append_right _
  · rw [declareAll_append, mapHeadsAll_append, h.nodes, hpair, hnodes]
  · rw [declareAll_append, declareAll_append, hpair]
    exact Nat.add_right_cancel hgap

theorem group (h : Renumbered s r ns ms r' f ms') (p : Position) :
    Renumbered s r [.group ⟨ns, p⟩] [.group ⟨ms, p⟩] r' f [.group ⟨ms', p⟩] where
  injective := h.injective
  fixes := h.fixes
  swaps := .group h.swaps p []
  nodes := by
    change [Node.group ⟨(declareAll ms (s, r')).1, p⟩] = _
    rw [h.nodes]
    rfl
  last := h.last

/-- Two blocks that change places. -/
theorem swap {n m : Node} (hn : n.isBlock) (hm : m.isBlock)
    (hnames : ∀ name ∈ blockNames n, name ∉ blockNames m) (hun : UnlinkedAll [n])
    (hum : UnlinkedAll [m]) (s : Nat) (r r' : Registry) :
    Renumbered s r [n, m] [m, n] r'
      (exchange s (declareAll [n] (s, r)).2.1 (declareAll [n, m] (s, r)).2.1)
      ((declareAll [m] (declareAll [n] (s, r)).2).1 ++ (declareAll [n] (s, r)).1) := by
  have hkeep : ∀ {n : Node} (s : BlockId × Registry), n.isBlock →
      (declare n s).1.isBlock ∧ blockNames (declare n s).1 = blockNames n := by
    intro n s hn
    have hnames := blockNamesAll_congr (bareAll_declareAll [n] s)
    simp only [declareAll_cons, declareAll_nil, blockNamesAll, List.append_nil] at hnames
    obtain ⟨k, inner, rfl⟩ := exists_block_of_isBlock hn
    exact ⟨by rw [declare_block]; rfl, hnames⟩
  have hle := le_declareAll [n] s r
  have hle' := le_declareAll [m] (declareAll [n] (s, r)).2.1 (declareAll [n] (s, r)).2.2
  change _ ≤ (declareAll [n, m] (s, r)).2.1 at hle'
  obtain ⟨hnodes, hgap⟩ := hum.declareAll (exchange_shifts_right hle) r'
  have hpair : (declareAll [m] (s, r')).2 =
      (s + ((declareAll [n, m] (s, r)).2.1 - (declareAll [n] (s, r)).2.1),
        (declareAll [m] (s, r')).2.2) := Prod.ext (hgap.eq_add hle') rfl
  obtain ⟨hnodes', hgap'⟩ := hun.declareAll exchange_shifts_left
    (declareAll [m] (s, r')).2.2
  refine ⟨exchange_injective hle hle', fun i ↦ exchange_fixes hle hle', ?_, ?_, ?_⟩
  · have hdn := hkeep (s, r) hn
    have hdm := hkeep (declare n (s, r)).2 hm
    exact .swap [] hdn.1 hdm.1 (by rwa [hdn.2, hdm.2])
  · change (declareAll [m] (s, r')).1 ++ (declareAll [n] (declareAll [m] (s, r')).2).1 = _
    rw [hpair, hnodes, hnodes', mapHeadsAll_append]
    rfl
  · change (declareAll [n] (declareAll [m] (s, r')).2).2.1 = _
    rw [hpair]
    exact hgap'.eq_last hle'

end Renumbered

/-- Only the numbers of the two blocks are exchanged. -/
theorem Swaps.exists_renumbered {ns ms : List Node} (h : Swaps ns ms) (hu : UnlinkedAll ns)
    (s : Nat) (r r' : Registry) : ∃ f ms', Renumbered s r ns ms r' f ms' := by
  induction h generalizing s r r' with
  | @swap n m ns hn hm hnames =>
    obtain ⟨hun, hus⟩ := unlinkedAll_cons.mp hu
    obtain ⟨hum, hus⟩ := unlinkedAll_cons.mp hus
    exact ⟨_, _, (Renumbered.swap hn hm hnames (unlinkedAll_singleton.mpr hun)
      (unlinkedAll_singleton.mpr hum) s r r').append_right hus⟩
  | @group inner inner' h p ns ih =>
    obtain ⟨hun, hus⟩ := unlinkedAll_cons.mp hu
    obtain ⟨f, ms', hr⟩ := ih (unlinked_group.mp hun) s r r'
    exact ⟨_, _, (hr.group p).append_right hus⟩
  | @cons n ns ms h ih =>
    obtain ⟨hun, hus⟩ := unlinkedAll_cons.mp hu
    obtain ⟨f, ms', hr⟩ := ih hus (declareAll [n] (s, r)).2.1 (declareAll [n] (s, r)).2.2
      (declareAll [n] (s, r')).2.2
    exact ⟨_, _, Renumbered.cons (unlinkedAll_singleton.mpr hun) hr⟩

/-! ### Merging -/

theorem fst_mergeNode_congr (r : Registry) (n : Node) (m m' : Merging) :
    (mergeNode r [] n m).1 = (mergeNode r [] n m').1 :=
  (List.cons.inj (fst_mergeAll_congr r [] [n] m m')).1

theorem isBlock_fst_mergeNode {n : Node} (h : n.isBlock) (r : Registry) (m : Merging) :
    (mergeNode r [] n m).1.isBlock := by
  obtain ⟨k, inner, rfl⟩ := exists_block_of_isBlock h
  rw [mergeNode_block_of_not_mem (List.not_mem_nil)]
  rfl

theorem blockNames_fst_mergeNode (r : Registry) (n : Node) (m : Merging) :
    blockNames (mergeNode r [] n m).1 = blockNames n := by
  have h := blockNamesAll_congr (bareAll_mergeAll_fst r [n] m)
  simpa [mergeAll, blockNamesAll] using h

/-- The child after a merge. -/
theorem Swaps.fst_mergeAll {ns ms : List Node} (h : Swaps ns ms) (r : Registry) (m m' : Merging) :
    Swaps (mergeAll r [] ns m).1 (mergeAll r [] ms m').1 := by
  induction h generalizing m m' with
  | @swap a b ns ha hb hnames =>
    simp only [mergeAll_cons]
    rw [fst_mergeNode_congr r b m' (mergeNode r [] a m).2,
      fst_mergeNode_congr r a (mergeNode r [] b m').2 m,
      fst_mergeAll_congr r [] ns (mergeNode r [] a (mergeNode r [] b m').2).2
        (mergeNode r [] b (mergeNode r [] a m).2).2]
    refine .swap _ (isBlock_fst_mergeNode ha r _) (isBlock_fst_mergeNode hb r _) ?_
    rwa [blockNames_fst_mergeNode, blockNames_fst_mergeNode]
  | @group inner inner' h p ns ih =>
    simp only [mergeAll_cons]
    rw [fst_mergeAll_congr r [] ns (mergeNode r [] (.group ⟨inner', p⟩) m').2
      (mergeNode r [] (.group ⟨inner, p⟩) m).2]
    exact .group (ih m m') p _
  | @cons n ns ms h ih =>
    simp only [mergeAll_cons]
    rw [fst_mergeNode_congr r n m' m]
    exact .cons _ (ih _ _)

theorem name_mem_of_mem_outermost {n : Node} {b : NamedBlock} (hb : b ∈ outermost [] n) :
    b.head.name ∈ blockNames n := by
  have hmem : b ∈ blocksAll [n] :=
    mem_blocksAll_of_mem_outermostAll (List.mem_append_left _ hb)
  have hname := List.mem_map_of_mem (f := fun b : NamedBlock ↦ b.head.name) hmem
  rw [← blockNamesAll_eq] at hname
  simpa [blockNamesAll] using hname

/-- The blocks to be merged: those of one block change places with those of the other. -/
theorem Swaps.exists_outermostAll {ns ms : List Node} (h : Swaps ns ms) :
    ∃ xs as bs ys, outermostAll [] ns = xs ++ (as ++ bs ++ ys) ∧
      outermostAll [] ms = xs ++ (bs ++ as ++ ys) ∧
      ∀ a ∈ as, ∀ b ∈ bs, a.head.name ≠ b.head.name := by
  induction h with
  | @swap a b ns ha hb hnames =>
    refine ⟨[], outermost [] a, outermost [] b, outermostAll [] ns, by simp [outermostAll],
      by simp [outermostAll], fun x hx y hy he ↦ ?_⟩
    exact hnames _ (name_mem_of_mem_outermost hx) (he ▸ name_mem_of_mem_outermost hy)
  | @group inner inner' h p ns ih =>
    obtain ⟨xs, as, bs, ys, hns, hms, hdiff⟩ := ih
    exact ⟨xs, as, bs, ys ++ outermostAll [] ns, by simp [outermostAll, outermost, hns],
      by simp [outermostAll, outermost, hms], hdiff⟩
  | @cons n ns ms h ih =>
    obtain ⟨xs, as, bs, ys, hns, hms, hdiff⟩ := ih
    exact ⟨outermost [] n ++ xs, as, bs, ys, by simp [outermostAll, hns],
      by simp [outermostAll, hms], hdiff⟩

end Node

end Templating
