import Templating.Proofs.Linking.Shifting
import Templating.Proofs.Node.Members

/-!
# What a link has checked

A link that succeeds has linked every document that its document reaches (`Node.Reaches.links`),
so each of them has passed the checks: it inherits nowhere but in its first statement, and if it
inherits there is nothing at its top that has no place in the parent (`link_validates`). The first
check comes before everything else a link does.
-/

namespace Templating

open Node

/-- What can stand at the top of an inheriting document. -/
theorem Node.isMixinDefinition_or_isBlock_of_overridesAll {ns : List Node}
    {os : List (String × Position)} (h : overridesAll ns = .ok os) :
    ∀ m ∈ topLevelAll ns, m.isMixinDefinition ∨ m.isBlock := by
  have hcons : ∀ {n ns os}, overridesAll (n :: ns) = .ok os →
      ∃ found others, overrides n = .ok found ∧ overridesAll ns = .ok others := by
    intro n ns os h
    rw [overridesAll] at h
    split at h
    · cases h
    · next found hfound =>
      split at h
      · cases h
      · next others hothers => exact ⟨found, others, hfound, hothers⟩
  induction ns using top_induction generalizing os with
  | nil => simp [topLevelAll]
  | group inner p ns ihi ih =>
    obtain ⟨found, others, hfound, hothers⟩ := hcons h
    exact List.forall_mem_append.mpr ⟨ihi hfound, ih hothers⟩
  | other n ns hn ih =>
    obtain ⟨found, others, hfound, hothers⟩ := hcons h
    rw [topLevelAll, topLevel_of_not_group hn, List.singleton_append, List.forall_mem_cons]
    refine ⟨?_, ih hothers⟩
    cases n with
    | block => exact .inr rfl
    | mixin k b =>
      rw [overrides] at hfound
      split at hfound
      · cases hfound
      · next hk => exact .inl (by simpa [isMixinDefinition] using hk)
    | group => cases hn
    | _ => cases hfound

/-- The document links, from some number on. -/
def Node.Links (d : Node) : Prop := ∃ s l s', linkNode d s = .ok (l, s')

/-- The included documents among the nodes link, with all that they reach. -/
def Node.LinksIncluded (ns : List Node) : Prop :=
  ∀ m ∈ membersAll ns, m.isInherits = false → ∀ d ∈ m.template?, ∀ e, d.Reaches e → e.Links

variable {ns ms : List Node}

theorem Node.linksIncluded_nil : LinksIncluded [] := by simp [LinksIncluded]

theorem Node.linksIncluded_append :
    LinksIncluded (ns ++ ms) ↔ LinksIncluded ns ∧ LinksIncluded ms := by
  simp only [LinksIncluded, membersAll_append, List.forall_mem_append]

theorem Node.linksIncluded_singleton {n : Node} (hn : members n = n :: membersAll ns) :
    LinksIncluded [n] ↔
      (n.isInherits = false → ∀ d ∈ n.template?, ∀ e, d.Reaches e → e.Links) ∧
        LinksIncluded ns := by
  simp only [LinksIncluded, membersAll_cons, hn, membersAll_nil, List.append_nil,
    List.forall_mem_cons]

/-- A link of a document links all documents that it reaches, and expansion those that it
includes. -/
theorem documentCases_links :
    DocumentCases (fun d ↦ d.Links → ∀ e, d.Reaches e → e.Links)
      (fun ns ↦ (∃ s r, expandAll ns s = .ok r) → LinksIncluded ns) where
  base ns p hhead ih hlinks e he := by
    obtain ⟨s, l, s', hl⟩ := hlinks
    obtain ⟨hfirst, ns', s₁, hns, -, -⟩ := (linkNode_group_eq_ok hhead).mp hl
    cases he with
    | self => exact ⟨s, l, s', hl⟩
    | step hm ht he =>
      rw [members_group, List.mem_cons] at hm
      obtain rfl | hm := hm
      · cases ht
      · exact ih ⟨s, _, hns⟩ _ hm (firstInheritAll_eq_none_iff.mp hfirst _ hm) _ ht e he
  inherit f d q ns p ihd ih hlinks e he := by
    obtain ⟨s, l, s', hl⟩ := hlinks
    cases d with
    | none => exact absurd hl linkNode_inherits_none_ne_ok
    | some d =>
      obtain ⟨hfirst, ns', s₁, hns, os, -, parent, hparent, -⟩ := linkNode_inherits_eq_ok.mp hl
      cases he with
      | self => exact ⟨s, l, s', hl⟩
      | step hm ht he =>
        rw [members_group, List.mem_cons, membersAll_cons, members_leaf rfl, List.singleton_append,
          List.mem_cons] at hm
        obtain rfl | rfl | hm := hm
        · cases ht
        · obtain rfl := Option.some.inj ht
          exact ihd _ rfl ⟨_, _, _, hparent⟩ e he
        · exact ih ⟨s, _, hns⟩ _ hm (firstInheritAll_eq_none_iff.mp hfirst _ hm) _ ht e he
  other n hn hlinks e he := by
    obtain ⟨s, l, s', hl⟩ := hlinks
    rw [linkNode_of_not_group hn] at hl
    exact absurd hl Link.throw_ne_ok
  nil _ := linksIncluded_nil
  cons n ns ihn ih h := by
    obtain ⟨s, r, h⟩ := h
    rw [expandAll_cons] at h
    obtain ⟨ms, s₁, hn, h⟩ := Link.bind_eq_ok.mp h
    obtain ⟨ms', s₂, hns, -⟩ := Link.bind_eq_ok.mp h
    rw [← List.singleton_append, linksIncluded_append]
    exact ⟨ihn ⟨s, _, hn⟩, ih ⟨s₁, _, hns⟩⟩
  framed F ns hF ih h := by
    obtain ⟨s, r, h⟩ := h
    rw [expandAll_framed hF] at h
    obtain ⟨ms, s₁, hns, -⟩ := Link.bind_eq_ok.mp h
    refine (linksIncluded_singleton (members_framed F ns)).mpr ⟨fun _ d hd ↦ ?_, ih ⟨s, _, hns⟩⟩
    cases F with
    | includes => cases hF
    | _ => cases hd
  block h ns ih hs := by
    obtain ⟨s, r, hs⟩ := hs
    rw [expandAll_block] at hs
    obtain ⟨ms, s₁, hns, -⟩ := Link.bind_eq_ok.mp hs
    refine (linksIncluded_singleton (members_block h ns)).mpr ⟨fun _ d hd ↦ ?_, ih ⟨s, _, hns⟩⟩
    cases hd
  leaf n hn hi _ := by
    refine (linksIncluded_singleton (members_leaf hn)).mpr ⟨fun hinh d hd ↦ ?_, linksIncluded_nil⟩
    cases n, hn using leaf_cases with
    | inherits => cases hinh
    | includes => cases hi
    | _ => cases hd
  includesRaw f d us p _ := by
    refine (linksIncluded_singleton (members_leaf rfl)).mpr ⟨fun _ e he ↦ ?_, linksIncluded_nil⟩
    cases he
  includes f d b p ihd ih h := by
    obtain ⟨s, r, h⟩ := h
    cases d with
    | none =>
      rw [expandAll_includes_none] at h
      obtain ⟨_, _, -, h⟩ := Link.bind_eq_ok.mp h
      exact absurd h Link.throw_ne_ok
    | some d =>
      rw [expandAll_includes] at h
      obtain ⟨c, s₁, hb, h⟩ := Link.bind_eq_ok.mp h
      obtain ⟨l, s₂, hl, -⟩ := Link.bind_eq_ok.mp h
      have hdocument : ∀ d' ∈ some d, ∀ e, d'.Reaches e → e.Links := by
        intro d' hd'
        obtain rfl := Option.some.inj hd'
        exact ihd d rfl ⟨s₁, l, s₂, hl⟩
      cases b with
      | none =>
        exact (linksIncluded_singleton (members_leaf rfl)).mpr
          ⟨fun _ ↦ hdocument, linksIncluded_nil⟩
      | some b =>
        obtain ⟨ns, q⟩ := b
        rw [expandBody_some] at hb
        obtain ⟨ms, s₃, hns, -⟩ := Link.bind_eq_ok.mp hb
        exact (linksIncluded_singleton (members_framed (.includes f (some d) q p) ns)).mpr
          ⟨fun _ ↦ hdocument, ih ⟨ns, q⟩ rfl ⟨s, _, hns⟩⟩

theorem Node.Unlinked.of_reaches {d e : Node} (hu : d.Unlinked) (h : d.Reaches e) : e.Unlinked :=
  fun m hm ↦ hu m (h.listing_subset hm)

/-- Every document that a linked one reaches links by itself. -/
theorem Node.Reaches.links {d e : Node} (h : d.Reaches e) {l : Linked} (hl : link d = .ok l) :
    e.Links := by
  obtain ⟨s', hl⟩ := link_eq_ok.mp hl
  exact documentCases_links.document d ⟨0, l, s', hl⟩ e h

/-- A link looks first for a misplaced inherit statement. -/
theorem exists_linkNode_eq_bind (ns : List Node) (p : Position) :
    ∃ k : Unit → Link Linked, linkNode (.group ⟨ns, p⟩) =
      (liftM (checkInherits (ownStatements ns)) : Link Unit) >>= k := by
  by_cases hhead : ∀ n ∈ ns.head?, n.isInherits = false
  · rw [linkNode_group hhead, ownStatements_of_head hhead]
    exact ⟨_, rfl⟩
  · obtain ⟨f, d, q, rest, rfl⟩ := exists_of_not_head hhead
    cases d with
    | none => exact ⟨_, linkNode_inherits_none f q p rest⟩
    | some d => exact ⟨_, linkNode_inherits f d q p rest⟩

theorem link_eq_error_of_firstInheritAll {p q : Position}
    (h : firstInheritAll (ownStatements ns) = some q) :
    link (.group ⟨ns, p⟩) = .error (.structural .inheritNotFirst q) := by
  obtain ⟨k, hk⟩ := exists_linkNode_eq_bind ns p
  rw [link, hk, checkInherits, h]
  rfl

/-- Expanded from the number on, the statements leave nothing at the top but named blocks and
mixin definitions. -/
def Node.OnlyOverrides (ns : List Node) (s : Nat) : Prop :=
  ∃ ms s', expandAll ns s = .ok (ms, s') ∧
    ∀ m ∈ topLevelAll ms, m.isMixinDefinition ∨ m.isBlock

theorem Node.Links.exists_group {d : Node} (h : d.Links) :
    ∃ ns p, d = .group ⟨ns, p⟩ ∧ ∀ m ∈ membersAll (ownStatements ns), m.isInherits = false := by
  obtain ⟨s, l, s', hl⟩ := h
  cases d with
  | group b =>
    obtain ⟨ns, p⟩ := b
    refine ⟨ns, p, rfl, firstInheritAll_eq_none_iff.mp ?_⟩
    obtain ⟨k, hk⟩ := exists_linkNode_eq_bind ns p
    rw [hk] at hl
    obtain ⟨_, _, hcheck, -⟩ := Link.bind_eq_ok.mp hl
    obtain ⟨_, hcheck, -⟩ := Link.lift_eq_ok.mp hcheck
    exact Link.checkInherits_eq_ok.mp hcheck
  | _ => exact absurd hl Link.throw_ne_ok

/-- An inheriting document that links puts only overrides at its top. -/
theorem Node.Links.onlyOverrides {f : Reference} {d : Option Node} {q p : Position}
    (h : Links (.group ⟨.inherits f d q :: ns, p⟩)) : ∃ s, OnlyOverrides ns s := by
  obtain ⟨s, l, s', hl⟩ := h
  cases d with
  | none => exact absurd hl linkNode_inherits_none_ne_ok
  | some d =>
    obtain ⟨-, ms, s₁, hns, os, hos, -⟩ := linkNode_inherits_eq_ok.mp hl
    rw [overridesAll_congr (bareAll_declareAll ms _)] at hos
    exact ⟨s, ms, s₁, hns, isMixinDefinition_or_isBlock_of_overridesAll hos⟩

theorem Node.topLevelAll_rename (f : BlockId → BlockId) (ns : List Node) :
    (∀ m ∈ topLevelAll (mapHeadsAll (.rename f) ns), m.isMixinDefinition ∨ m.isBlock) ↔
      ∀ m ∈ topLevelAll ns, m.isMixinDefinition ∨ m.isBlock := by
  have hos : overridesAll (mapHeadsAll (.rename f) ns) = overridesAll ns :=
    overridesAll_mapHeadsAll (f := BlockHead.rename f) (fun _ ↦ ⟨rfl, rfl⟩) ns
  constructor
  · intro h
    obtain ⟨os, h, -⟩ := overridesAll_eq_ok h
    exact isMixinDefinition_or_isBlock_of_overridesAll (hos.symm.trans h)
  · intro h
    obtain ⟨os, h, -⟩ := overridesAll_eq_ok h
    exact isMixinDefinition_or_isBlock_of_overridesAll (hos.trans h)

/-- The numbers drawn before an expansion have no say in what stands at the top. -/
theorem Node.onlyOverrides_iff_zero (hu : UnlinkedAll ns) (s : Nat) :
    OnlyOverrides ns s ↔ OnlyOverrides ns 0 := by
  have hf : Function.Injective (· + s) := fun _ _ h ↦ Nat.add_right_cancel h
  have hs : Shifts (· + s) 0 s := fun i _ ↦ by simp
  have hexp := (documentCases_related hf).nodes ns hu 0 s hs
  unfold OnlyOverrides
  generalize expandAll ns 0 = x, expandAll ns s = y at hexp
  cases hexp with
  | error => simp
  | @ok a b hr =>
    obtain ⟨ms, t⟩ := a
    obtain ⟨_, t'⟩ := b
    obtain ⟨rfl, -⟩ := hr
    simp [topLevelAll_rename]

/-- If a link succeeds, every document that it reaches inherits nowhere but in its first statement,
and one that inherits puts nothing at its top but named blocks and mixin definitions, once its
includes are expanded and groups are looked through. A document with another inherit statement
fails for the first of them, whatever else is wrong with it. -/
theorem link_validates (n : Node) :
    (∀ l, link n = .ok l → ∀ d, n.Reaches d →
      ∃ ns p, d = .group ⟨ns, p⟩ ∧
        (∀ m ∈ membersAll (ownStatements ns), m.isInherits = false) ∧
        ((∃ m ∈ ns.head?, m.isInherits) →
          (∃ s, OnlyOverrides (ownStatements ns) s) ∧
            (n.Unlinked → ∀ s, OnlyOverrides (ownStatements ns) s))) ∧
      ∀ ns p m, n = .group ⟨ns, p⟩ → (membersAll (ownStatements ns)).find? isInherits = some m →
        link n = .error (.structural .inheritNotFirst m.position) := by
  constructor
  · intro l hl d hd
    have hlinks := hd.links hl
    obtain ⟨ns, p, rfl, hplace⟩ := hlinks.exists_group
    refine ⟨ns, p, rfl, hplace, fun hhead ↦ ?_⟩
    have hhead' : ¬ ∀ m ∈ ns.head?, m.isInherits = false := by simpa using hhead
    obtain ⟨f, d, q, rest, rfl⟩ := exists_of_not_head hhead'
    obtain ⟨s, hs⟩ := hlinks.onlyOverrides
    refine ⟨⟨s, hs⟩, fun hu s' ↦ ?_⟩
    have hrest : UnlinkedAll rest :=
      (unlinkedAll_cons.mp (unlinked_group.mp (hu.of_reaches hd))).2
    exact (onlyOverrides_iff_zero hrest s').mpr ((onlyOverrides_iff_zero hrest s).mp hs)
  · rintro ns p m rfl hm
    exact link_eq_error_of_firstInheritAll (by rw [firstInheritAll_eq_find?, hm]; rfl)

/-- A document that inherits, with its override in a group. -/
def framedCard : Node :=
  let frame := .group ⟨[.block (.fresh "main" .replace ⟨none, 1⟩) []], ⟨none, 1⟩⟩
  .group ⟨[.inherits (.loaded "frame.tmpl") (some frame) ⟨none, 1⟩,
    .group ⟨[.block (.fresh "main" .append ⟨none, 2⟩) [.text "card" ⟨none, 2⟩]], ⟨none, 2⟩⟩],
    ⟨none, 1⟩⟩

/-- Includes `framedCard` in the body of a filter. -/
def cardPage : Node :=
  .group ⟨[.filter ⟨"upper", [], ⟨none, 1⟩⟩
    ⟨[.includes (.loaded "card.tmpl") (some framedCard) none ⟨none, 2⟩], ⟨none, 1⟩⟩], ⟨none, 1⟩⟩

/-- Inherits twice from documents that are not loaded, and includes another one before. -/
def misplacedPage : Node :=
  .group ⟨[.inherits (.loaded "frame.tmpl") none ⟨none, 1⟩,
    .includes (.loaded "card.tmpl") none none ⟨none, 2⟩,
    .mixin ⟨"m", none, true, ⟨none, 3⟩⟩
      (some ⟨[.inherits (.loaded "frame.tmpl") none ⟨none, 4⟩], ⟨none, 3⟩⟩)], ⟨none, 1⟩⟩

theorem link_validates_cardPage :
    (∃ l, link cardPage = .ok l) ∧ cardPage.Unlinked ∧ cardPage.Reaches framedCard ∧
      (∀ ns p, framedCard = .group ⟨ns, p⟩ → ∀ s, OnlyOverrides (ownStatements ns) s) ∧
      link misplacedPage = .error (.structural .inheritNotFirst ⟨none, 4⟩) := by
  have hu : cardPage.Unlinked := by decide
  have hreaches : cardPage.Reaches framedCard :=
    .step (m := .includes (.loaded "card.tmpl") (some framedCard) none ⟨none, 2⟩)
      (by simp [cardPage, members, membersAll]) rfl (.self _)
  refine ⟨⟨_, rfl⟩, hu, hreaches, fun ns p heq ↦ ?_, (link_validates misplacedPage).2 _ _ _ rfl rfl⟩
  obtain ⟨ns', p', heq', -, htop⟩ := (link_validates cardPage).1 _ rfl framedCard hreaches
  cases heq
  cases heq'
  exact (htop ⟨_, rfl, rfl⟩).2 hu

end Templating
