import Templating.Proofs.Linking.Numbering
import Templating.Proofs.Linking.Renaming
import Templating.Proofs.Node.Unlinked

/-!
# Links from another number on

A document that is linked when more numbers have been drawn gets other numbers, and nothing else
about its link changes (`documentCases_related`): the link fails with the same error or gives the
same tree and registry, renumbered.
-/

namespace Templating

open Node

/-! ### Documents before their link -/

namespace Node

theorem blockId?_eq_none_of_isUnlinked {n : Node} (h : n.isUnlinked) : n.blockId? = none := by
  cases n with
  | block k ns =>
    simp only [isUnlinked, Bool.and_eq_true, Option.isNone_iff_eq_none] at h
    exact h.1
  | _ => rfl

theorem Unlinked.unnumbered {n : Node} (h : n.Unlinked) : n.Unnumbered :=
  fun m hm ↦ blockId?_eq_none_of_isUnlinked (h m hm)

theorem UnlinkedAll.unnumbered {ns : List Node} (h : UnlinkedAll ns) : UnnumberedAll ns :=
  fun m hm ↦ blockId?_eq_none_of_isUnlinked (h m hm)

theorem rename_eq_self_of_unlinked (f : BlockId → BlockId) {h : BlockHead}
    (hu : h.id = none ∧ h.parents = none) : h.rename f = h :=
  BlockHead.rename_eq_self (by simp [hu.1]) (by simp [hu.2])

end Node

/-! ### Computations from two numbers on -/

/-- All numbers drawn after `s` are renamed to those drawn after `s'`. -/
def Shifts (f : Nat → Nat) (s s' : Nat) : Prop := ∀ i : Nat, s < i → f i + s = i + s'

theorem Shifts.upTo {f : Nat → Nat} {s s' : Nat} (h : Shifts f s s') (last : Nat) :
    ShiftsUpTo f s last s' :=
  fun i hi _ ↦ h i hi

theorem Shifts.mono {f : Nat → Nat} {s s' t t' : Nat} (h : Shifts f s s') (hle : s ≤ t)
    (hgap : SameGap s t s' t') : Shifts f t t' :=
  fun i hi ↦ (h.upTo i).mono hle hgap (Nat.le_refl i) i hi (Nat.le_refl i)

namespace Link

variable {α β γ δ : Type} {f : Nat → Nat} {R : α → β → Prop} {x : Link α} {y : Link β}

/-- Whenever `f` shifts the numbers to be drawn, both linkings fail with the same error, or give
results related by `R` and leave numbers that `f` shifts. -/
def Related (f : Nat → Nat) (R : α → β → Prop) (x : Link α) (y : Link β) : Prop :=
  ∀ s s', Shifts f s s' → Outcomes Eq (fun p q ↦ R p.1 q.1 ∧ Shifts f p.2 q.2) (x s) (y s')

theorem related_pure {a : α} {b : β} (h : R a b) : Related f R (pure a) (pure b) :=
  fun _ _ hs ↦ .ok ⟨h, hs⟩

theorem related_throw (e : TemplateError) :
    Related f R (throw e : Link α) (throw e : Link β) :=
  fun _ _ _ ↦ .error rfl

theorem related_lift {a : Except TemplateError α} {b : Except TemplateError β}
    (h : Outcomes Eq R a b) : Related f R (liftM a) (liftM b) := by
  intro s s' hs
  cases h with
  | error he => exact .error he
  | ok hr => exact .ok ⟨hr, hs⟩

theorem related_lift_self (a : Except TemplateError α) :
    Related f Eq (liftM a : Link α) (liftM a) :=
  related_lift (Outcomes.refl a)

theorem Related.bind {S : γ → δ → Prop} {g : α → Link γ} {k : β → Link δ}
    (hx : Related f R x y) (hg : ∀ a b, R a b → Related f S (g a) (k b)) :
    Related f S (x >>= g) (y >>= k) := by
  intro s s' hs
  change Outcomes Eq _ (x s >>= fun p ↦ g p.1 p.2) (y s' >>= fun q ↦ k q.1 q.2)
  exact (hx s s' hs).bind fun _ _ hr _ _ ↦ hg _ _ hr.1 _ _ hr.2

/-- A document that is declared later. -/
theorem related_declareBlocks (hf : Function.Injective f) (ns : List Node) :
    Related f
      (fun a b ↦ b.1 = mapHeadsAll (.rename f) a.1 ∧ Registry.Renames f a.2 b.2)
      (declareBlocks ns) (declareBlocks (mapHeadsAll (.rename f) ns)) := by
  intro s s' hs
  obtain ⟨hnodes, hgap⟩ := renumbers f ns s s' .empty .empty (hs.upTo _)
  exact .ok ⟨⟨hnodes, declareAll_renames hf (hs.upTo _)⟩, hs.mono (le_declareAll ns s .empty) hgap⟩

end Link

open Link

/-! ### Links -/

/-- An included document under other numbers. -/
theorem Linked.Renames.embedded {f : BlockId → BlockId} {l l' : Linked} (h : l.Renames f l')
    (hi : l'.inherits = l.inherits) : l'.embedded = l.embedded.rename f := by
  unfold Linked.embedded
  rw [hi, h.root]
  split
  · simp only [Block.mapHeads]
    rw [dissolveAll_mapHeadsAll (g := .rename f) fun _ ↦ rfl, mapHeadsAll,
      mapBlocksAll_eq_self fun b hb ↦ by simp [blocksAll_dissolveAll] at hb]
  · rfl

/-- What a link with an `inherits` tag does before it links the base goes on alike, if the rest
does. -/
theorem related_inherits {f : Nat → Nat} (hf : Function.Injective f) {ns : List Node}
    {α β : Type} {R : α → β → Prop} {k : List Node × Registry → List (String × Position) → Link α}
    {k' : List Node × Registry → List (String × Position) → Link β}
    (hns : Related f (fun ms ms' ↦ ms' = mapHeadsAll (.rename f) ms) (expandAll ns)
      (expandAll ns))
    (hk : ∀ ms r r' os, Registry.Renames f r r' →
      Related f R (k (ms, r) os) (k' (mapHeadsAll (.rename f) ms, r') os)) :
    Related f R
      (do
        checkInherits ns
        let ms ← expandAll ns
        let x ← declareBlocks ms
        let os ← overridesAll x.1
        k x os)
      (do
        checkInherits ns
        let ms ← expandAll ns
        let x ← declareBlocks ms
        let os ← overridesAll x.1
        k' x os) := by
  refine (related_lift_self _).bind fun _ _ _ ↦ ?_
  refine hns.bind ?_
  rintro ms _ rfl
  refine (related_declareBlocks hf ms).bind ?_
  rintro ⟨ms, r⟩ ⟨_, r'⟩ ⟨rfl, hr⟩
  simp only [overridesAll_mapHeadsAll (f := BlockHead.rename f) fun _ ↦ ⟨rfl, rfl⟩]
  refine (related_lift_self _).bind ?_
  rintro os _ rfl
  exact hk ms r r' os hr

/-- Every step of a link goes on alike from another number. -/
theorem documentCases_related {f : Nat → Nat} (hf : Function.Injective f) :
    DocumentCases
      (fun d ↦ d.Unlinked →
        Related f (fun l l' ↦ l.Renames f l' ∧ l'.inherits = l.inherits) (linkNode d) (linkNode d))
      (fun ns ↦ UnlinkedAll ns →
        Related f (fun ms ms' ↦ ms' = mapHeadsAll (.rename f) ms) (expandAll ns)
          (expandAll ns)) where
  base ns p hhead ih hu := by
    rw [linkNode_group hhead]
    refine (related_lift_self _).bind fun _ _ _ ↦ ?_
    refine (ih (unlinked_group.mp hu)).bind ?_
    rintro ms _ rfl
    refine (related_declareBlocks hf ms).bind ?_
    rintro ⟨ms, r⟩ ⟨_, r'⟩ ⟨rfl, hr⟩
    exact related_pure ⟨⟨rfl, hr⟩, rfl⟩
  inherit g d q ns p ihd ih hu := by
    obtain ⟨hd, hns⟩ := unlinkedAll_cons.mp (unlinked_group.mp hu)
    cases d with
    | none =>
      rw [linkNode_inherits_none]
      exact related_inherits hf (ih hns) fun _ _ _ _ _ ↦ related_throw _
    | some d =>
      rw [linkNode_inherits]
      refine related_inherits hf (ih hns) fun ms r r' os hr ↦ ?_
      refine (ihd d rfl (unlinked_inherits.mp hd)).bind fun l l' hl ↦ ?_
      exact related_lift (hl.1.inherit hf rfl hr os)
  other n hn _ := by
    rw [linkNode_of_not_group hn]
    exact related_throw _
  nil _ := related_pure rfl
  cons n ns ihn ih hu := by
    obtain ⟨hn, hns⟩ := unlinkedAll_cons.mp hu
    rw [expandAll_cons]
    refine (ihn (unlinkedAll_singleton.mpr hn)).bind ?_
    rintro ms _ rfl
    refine (ih hns).bind ?_
    rintro ms' _ rfl
    exact related_pure (mapHeadsAll_append _ _ _).symm
  framed F ns hF ih hu := by
    rw [expandAll_framed hF]
    refine (ih hu.of_framed).bind ?_
    rintro ms _ rfl
    exact related_pure (mapHeadsAll_framed _ F ms).symm
  block k ns ih hu := by
    obtain ⟨hk, hns⟩ := unlinked_block.mp (unlinkedAll_singleton.mp hu)
    rw [expandAll_block]
    refine (ih hns).bind ?_
    rintro ms _ rfl
    exact related_pure (by rw [mapHeadsAll_block, rename_eq_self_of_unlinked f hk])
  leaf n hn hi _ := by
    rw [expandAll_leaf hn hi]
    exact related_pure (mapHeadsAll_leaf hn _).symm
  includesRaw g d us p _ := by
    rw [expandAll_includesRaw]
    cases g.text with
    | none => exact related_throw _
    | some t => exact related_pure rfl
  includes g d b p ihd ih hu := by
    have hu := unlinkedAll_singleton.mp hu
    have hbody : Related f (fun c c' ↦ c' = c.map (Block.rename f)) (expandBody b)
        (expandBody b) := by
      cases b with
      | none => exact related_pure rfl
      | some b =>
        obtain ⟨ns, q⟩ := b
        rw [expandBody_some]
        refine (ih ⟨ns, q⟩ rfl hu.body).bind ?_
        rintro ms _ rfl
        exact related_pure rfl
    cases d with
    | none =>
      rw [expandAll_includes_none]
      exact hbody.bind fun _ _ _ ↦ related_throw _
    | some d =>
      rw [expandAll_includes]
      refine hbody.bind ?_
      rintro c _ rfl
      refine (ihd d rfl hu.document).bind fun l l' hl ↦ related_pure ?_
      rw [hl.1.embedded hl.2, ← Block.mapHeads_takeIn]
      exact (mapHeadsAll_framed _ (.group _) _).symm

/-- A link from any number on is the link of the document, with later numbers. -/
theorem exists_link_of_linkNode {d : Node} (hd : d.Unlinked) {s s' : Nat} {l : Linked}
    (h : linkNode d s = .ok (l, s')) : ∃ l₀, link d = .ok l₀ ∧ l₀.Renames (· + s) l := by
  have hf : Function.Injective (· + s) := fun _ _ h ↦ Nat.add_right_cancel h
  have hs : Shifts (· + s) 0 s := fun i _ ↦ by simp
  have hl := (documentCases_related hf).document d hd 0 s hs
  rw [h] at hl
  obtain ⟨p, hp, ⟨hr, -⟩, -⟩ := hl.exists_ok
  exact ⟨p.1, link_eq_ok.mpr ⟨p.2, hp⟩, hr⟩

end Templating
