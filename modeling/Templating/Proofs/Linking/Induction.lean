import Templating.Proofs.Node.Frame

/-!
# Induction on successful links

A link that succeeds has run through fixed cases: a document without or with a parent, and for
the nodes of a document one case for each thing expansion does. A statement about all successful
links is proved from these cases (`LinkCases`), together with the chain of inheriting documents
that the link went along (`Node.ancestry`).
-/

namespace Templating

/-- An inheriting document of a chain, when its blocks have been declared. -/
structure Generation where
  nodes : List Node
  /-- The last number drawn by then. Blocks of the document's ancestors have later ones. -/
  last : Nat

/-- The inheriting documents that a link of a document goes along, the document first. `last` is
the last number drawn before. -/
def Node.ancestry : Node → Nat → Except TemplateError (List Generation)
  | .group ⟨.inherits _ (some d) _ :: rest, _⟩, last =>
    match expandAll rest last with
    | .error e => .error e
    | .ok (ns, last) =>
      match ancestry d (Node.declareAll ns (last, .empty)).2.1 with
      | .error e => .error e
      | .ok gs =>
        .ok (⟨(Node.declareAll ns (last, .empty)).1,
          (Node.declareAll ns (last, .empty)).2.1⟩ :: gs)
  | _, _ => .ok []
  termination_by structural d => d

/-- The root of an included document, without named blocks if it inherits. -/
def Linked.embedded (l : Linked) : Block :=
  if l.inherits then { l.root with nodes := Node.dissolveAll l.root.nodes } else l.root

namespace Node

/-- The node is the statement that a document inherits. -/
def isInherits : Node → Bool
  | .inherits .. => true
  | _ => false

/-- The node stands for another file, or for its text. -/
def isInclusion : Node → Bool
  | .includes .. => true
  | .includesRaw .. => true
  | _ => false

end Node

namespace Link

variable {α β : Type}

theorem bind_eq_ok {x : Link α} {f : α → Link β} {s : Nat} {r : β × Nat} :
    (x >>= f) s = .ok r ↔ ∃ a s', x s = .ok (a, s') ∧ f a s' = .ok r := by
  change (x s >>= fun p ↦ f p.1 p.2) = .ok r ↔ _
  cases h : x s with
  | error e => simp [bind, Except.bind]
  | ok p =>
    constructor
    · exact fun hr ↦ ⟨p.1, p.2, rfl, hr⟩
    · rintro ⟨a, s', hp, hr⟩
      cases hp
      exact hr

theorem pure_eq_ok {a : α} {s : Nat} {r : α × Nat} :
    (pure a : Link α) s = .ok r ↔ (a, s) = r := by
  change Except.ok (a, s) = .ok r ↔ _
  simp

theorem lift_eq_ok {x : Except TemplateError α} {s : Nat} {r : α × Nat} :
    (liftM x : Link α) s = .ok r ↔ ∃ a, x = .ok a ∧ (a, s) = r := by
  change (x >>= fun a ↦ pure (a, s)) = .ok r ↔ _
  cases x <;> simp [bind, Except.bind, pure, Except.pure]

theorem throw_ne_ok {e : TemplateError} {s : Nat} {r : α × Nat} :
    (throw e : Link α) s ≠ .ok r := by
  intro h
  cases h

theorem declareBlocks_eq_ok {ns : List Node} {s : Nat} {r : (List Node × Registry) × Nat} :
    declareBlocks ns s = .ok r ↔
      (((Node.declareAll ns (s, .empty)).1, (Node.declareAll ns (s, .empty)).2.2),
        (Node.declareAll ns (s, .empty)).2.1) = r := by
  change Except.ok _ = Except.ok r ↔ _
  rw [Except.ok.injEq]

theorem checkInherits_eq_ok {ns : List Node} {u : Unit} :
    checkInherits ns = .ok u ↔ Node.firstInheritAll ns = none := by
  unfold checkInherits
  cases Node.firstInheritAll ns <;> simp

end Link

theorem link_eq_ok {d : Node} {l : Linked} :
    link d = .ok l ↔ ∃ s', linkNode d 0 = .ok (l, s') := by
  change (Prod.fst <$> linkNode d 0 : Except _ _) = .ok l ↔ _
  cases linkNode d 0 with
  | error e => simp [Functor.map, Except.map]
  | ok r =>
    obtain ⟨l', s'⟩ := r
    simp [Functor.map, Except.map]

theorem exists_of_not_head {ns : List Node}
    (h : ¬ ∀ n ∈ ns.head?, n.isInherits = false) :
    ∃ f d q rest, ns = .inherits f d q :: rest := by
  match ns, h with
  | [], h => simp at h
  | .inherits f d q :: rest, _ => exact ⟨f, d, q, rest, rfl⟩
  | .group _ :: _, h | .block .. :: _, h | .includes .. :: _, h | .includesRaw .. :: _, h
  | .mixin .. :: _, h | .filter .. :: _, h | .yield _ :: _, h | .text .. :: _, h
  | .tag .. :: _, h => simp [Node.isInherits] at h

theorem linkNode_group {ns : List Node} (h : ∀ n ∈ ns.head?, n.isInherits = false)
    (p : Position) :
    linkNode (.group ⟨ns, p⟩) = (do
      checkInherits ns
      let ns ← expandAll ns
      let (ns, declared) ← declareBlocks ns
      pure ⟨⟨ns, p⟩, declared, false⟩) := by
  match ns, h with
  | [], _ => rfl
  | .inherits f d q :: rest, h => simp [Node.isInherits] at h
  | .group _ :: _, _ | .block .. :: _, _ | .includes .. :: _, _ | .includesRaw .. :: _, _
  | .mixin .. :: _, _ | .filter .. :: _, _ | .yield _ :: _, _ | .text .. :: _, _
  | .tag .. :: _, _ => rfl

/-- Linking a document that does not inherit. -/
theorem linkNode_group_eq_ok {ns : List Node} (h : ∀ n ∈ ns.head?, n.isInherits = false)
    {p : Position} {s : Nat} {l : Linked} {s' : Nat} :
    linkNode (.group ⟨ns, p⟩) s = .ok (l, s') ↔
      Node.firstInheritAll ns = none ∧ ∃ ns' s₁, expandAll ns s = .ok (ns', s₁) ∧
        l = ⟨⟨(Node.declareAll ns' (s₁, .empty)).1, p⟩, (Node.declareAll ns' (s₁, .empty)).2.2,
          false⟩ ∧
        s' = (Node.declareAll ns' (s₁, .empty)).2.1 := by
  simp only [linkNode_group h, Link.bind_eq_ok, Link.lift_eq_ok, Link.pure_eq_ok,
    Link.checkInherits_eq_ok, Link.declareBlocks_eq_ok]
  constructor
  · rintro ⟨_, _, ⟨_, hfirst, hs⟩, ns', s₁, hns, _, _, hd, he⟩
    cases hs
    cases hd
    cases he
    exact ⟨hfirst, ns', s₁, hns, rfl, rfl⟩
  · rintro ⟨hfirst, ns', s₁, hns, rfl, rfl⟩
    exact ⟨(), s, ⟨(), hfirst, rfl⟩, ns', s₁, hns, _, _, rfl, rfl⟩

/-- Linking a document that inherits from a loaded one. -/
theorem linkNode_inherits_eq_ok {f : Reference} {d : Node} {q : Position} {rest : List Node}
    {p : Position} {s : Nat} {l : Linked} {s' : Nat} :
    linkNode (.group ⟨.inherits f (some d) q :: rest, p⟩) s = .ok (l, s') ↔
      Node.firstInheritAll rest = none ∧ ∃ ns s₁, expandAll rest s = .ok (ns, s₁) ∧
        ∃ overrides, Node.overridesAll (Node.declareAll ns (s₁, .empty)).1 = .ok overrides ∧
          ∃ parent, linkNode d (Node.declareAll ns (s₁, .empty)).2.1 = .ok (parent, s') ∧
            parent.inherit (Node.declareAll ns (s₁, .empty)).1
              (Node.declareAll ns (s₁, .empty)).2.2 overrides = .ok l := by
  simp only [linkNode, Link.bind_eq_ok, Link.lift_eq_ok, Link.checkInherits_eq_ok,
    Link.declareBlocks_eq_ok]
  constructor
  · rintro ⟨_, _, ⟨_, hfirst, hs⟩, ns, s₁, hns, _, _, hd, overrides, _, ⟨_, hover, ho⟩,
      parent, _, hparent, _, hl, he⟩
    cases hs
    cases hd
    cases ho
    cases he
    exact ⟨hfirst, ns, s₁, hns, overrides, hover, parent, hparent, hl⟩
  · rintro ⟨hfirst, ns, s₁, hns, overrides, hover, parent, hparent, hl⟩
    exact ⟨(), s, ⟨(), hfirst, rfl⟩, ns, s₁, hns, _, _, rfl, overrides, _, ⟨_, hover, rfl⟩,
      parent, s', hparent, l, hl, rfl⟩

theorem Node.ancestry_group {ns : List Node} (h : ∀ n ∈ ns.head?, n.isInherits = false)
    (p : Position) (s : Nat) : Node.ancestry (.group ⟨ns, p⟩) s = .ok [] := by
  match ns, h with
  | [], _ => rfl
  | .inherits f d q :: rest, h => simp [Node.isInherits] at h
  | .group _ :: _, _ | .block .. :: _, _ | .includes .. :: _, _ | .includesRaw .. :: _, _
  | .mixin .. :: _, _ | .filter .. :: _, _ | .yield _ :: _, _ | .text .. :: _, _
  | .tag .. :: _, _ => rfl

theorem Node.ancestry_inherits {f : Reference} {d : Node} {q p : Position} {rest ns : List Node}
    {s s₁ : Nat} {gs : List Generation} (hns : expandAll rest s = .ok (ns, s₁))
    (hgs : d.ancestry (Node.declareAll ns (s₁, .empty)).2.1 = .ok gs) :
    Node.ancestry (.group ⟨.inherits f (some d) q :: rest, p⟩) s =
      .ok (⟨(Node.declareAll ns (s₁, .empty)).1, (Node.declareAll ns (s₁, .empty)).2.1⟩ :: gs) := by
  simp only [Node.ancestry, hns, hgs]

/-- The cases of an induction on successful links. -/
structure LinkCases (linked : Node → Nat → Linked → Nat → List Generation → Prop)
    (expanded : List Node → Nat → List Node → Nat → Prop) : Prop where
  /-- A document without a parent. -/
  base : ∀ ns p s ns' s', (∀ n ∈ ns.head?, n.isInherits = false) →
    Node.firstInheritAll ns = none → expanded ns s ns' s' →
    linked (.group ⟨ns, p⟩) s
      ⟨⟨(Node.declareAll ns' (s', .empty)).1, p⟩, (Node.declareAll ns' (s', .empty)).2.2, false⟩
      (Node.declareAll ns' (s', .empty)).2.1 []
  /-- A document with a parent. -/
  inherit : ∀ f d q ns p s ns' s' overrides parent s'' gs l,
    Node.firstInheritAll ns = none → expanded ns s ns' s' →
    Node.overridesAll (Node.declareAll ns' (s', .empty)).1 = .ok overrides →
    linked d (Node.declareAll ns' (s', .empty)).2.1 parent s'' gs →
    parent.inherit (Node.declareAll ns' (s', .empty)).1 (Node.declareAll ns' (s', .empty)).2.2
      overrides = .ok l →
    linked (.group ⟨.inherits f (some d) q :: ns, p⟩) s l s''
      (⟨(Node.declareAll ns' (s', .empty)).1, (Node.declareAll ns' (s', .empty)).2.1⟩ :: gs)
  nil : ∀ s, expanded [] s [] s
  cons : ∀ n ns s n' s' ns' s'', expanded [n] s [n'] s' → expanded ns s' ns' s'' →
    expanded (n :: ns) s (n' :: ns') s''
  framed : ∀ F ns s ns' s', (Node.framed F ns).isInclusion = false → expanded ns s ns' s' →
    expanded [.framed F ns] s [.framed F ns'] s'
  block : ∀ h ns s ns' s', expanded ns s ns' s' →
    expanded [.block h ns] s [.block h ns'] s'
  leaf : ∀ n s, n.isLeaf → n.isInclusion = false → expanded [n] s [n] s
  includesRaw : ∀ f d us p s t, f.text = some t →
    expanded [.includesRaw f d us p] s [.text (withoutReturns t) p] s
  includes : ∀ f d p s l s' gs, linked d s l s' gs →
    expanded [.includes f (some d) none p] s [.group l.embedded] s'
  /-- The nested sequence of an include is expanded before its document is linked. -/
  includesWith : ∀ f d ns q p s ns' s' l s'' gs, expanded ns s ns' s' →
    linked d s' l s'' gs →
    expanded [.includes f (some d) (some ⟨ns, q⟩) p] s
      [.group (l.embedded.takeIn (some ⟨ns', q⟩))] s''

namespace LinkCases

variable {linked : Node → Nat → Linked → Nat → List Generation → Prop}
  {expanded : List Node → Nat → List Node → Nat → Prop}

mutual

theorem linkNode (c : LinkCases linked expanded) : ∀ (d : Node) {s : Nat} {l : Linked} {s' : Nat},
    Templating.linkNode d s = .ok (l, s') → ∃ gs, d.ancestry s = .ok gs ∧ linked d s l s' gs
  | .group ⟨ns, p⟩, s, l, s', h => by
    by_cases hhead : ∀ n ∈ ns.head?, n.isInherits = false
    · obtain ⟨hfirst, ns', s₁, hns, rfl, rfl⟩ := (linkNode_group_eq_ok hhead).mp h
      exact ⟨[], Node.ancestry_group hhead p s,
        c.base ns p s ns' s₁ hhead hfirst (expandAll c ns hns)⟩
    · obtain ⟨f, d, q, rest, rfl⟩ := exists_of_not_head hhead
      cases d with
      | none =>
        simp only [Templating.linkNode, Link.bind_eq_ok] at h
        obtain ⟨_, _, _, _, _, _, _, _, _, _, _, _, h⟩ := h
        exact absurd h Link.throw_ne_ok
      | some d =>
        obtain ⟨hfirst, ns, s₁, hns, overrides, hover, parent, hparent, hl⟩ :=
          linkNode_inherits_eq_ok.mp h
        obtain ⟨gs, hgs, hp⟩ := linkNode c d hparent
        exact ⟨_, Node.ancestry_inherits hns hgs, c.inherit f d q rest p s ns s₁ overrides parent
          s' gs l hfirst (expandAll c rest hns) hover hp hl⟩
  | .block .., _, _, _, h | .inherits .., _, _, _, h | .includes .., _, _, _, h
  | .includesRaw .., _, _, _, h | .mixin .., _, _, _, h | .filter .., _, _, _, h
  | .yield _, _, _, _, h | .text .., _, _, _, h | .tag .., _, _, _, h => by
    exact absurd h Link.throw_ne_ok
  termination_by d => sizeOf d

theorem expandAll (c : LinkCases linked expanded) : ∀ (ns : List Node) {s : Nat}
    {ns' : List Node} {s' : Nat}, Templating.expandAll ns s = .ok (ns', s') → expanded ns s ns' s'
  | [], s, ns', s', h => by
    simp only [Templating.expandAll, Link.pure_eq_ok] at h
    cases h
    exact c.nil s
  | n :: ns, s, ns', s', h => by
    simp only [Templating.expandAll, Link.bind_eq_ok, Link.pure_eq_ok] at h
    obtain ⟨n', s₁, hn, ns', s₂, hns, he⟩ := h
    cases he
    exact c.cons n ns s n' s₁ ns' s' (expand c n hn) (expandAll c ns hns)
  termination_by ns => sizeOf ns

theorem expand (c : LinkCases linked expanded) : ∀ (n : Node) {s : Nat} {n' : Node} {s' : Nat},
    Templating.expand n s = .ok (n', s') → expanded [n] s [n'] s'
  | .block k ns, s, n', s', h => by
    simp only [Templating.expand, Link.bind_eq_ok, Link.pure_eq_ok] at h
    obtain ⟨ns', s₁, hns, he⟩ := h
    cases he
    exact c.block k ns s ns' s' (expandAll c ns hns)
  | .group ⟨ns, p⟩, s, n', s', h => by
    simp only [Templating.expand, Link.bind_eq_ok, Link.pure_eq_ok] at h
    obtain ⟨ns', s₁, hns, he⟩ := h
    cases he
    exact c.framed (.group p) ns s ns' s' rfl (expandAll c ns hns)
  | .filter u ⟨ns, p⟩, s, n', s', h => by
    simp only [Templating.expand, Link.bind_eq_ok, Link.pure_eq_ok] at h
    obtain ⟨ns', s₁, hns, he⟩ := h
    cases he
    exact c.framed (.filter u p) ns s ns' s' rfl (expandAll c ns hns)
  | .tag k ⟨ns, p⟩, s, n', s', h => by
    simp only [Templating.expand, Link.bind_eq_ok, Link.pure_eq_ok] at h
    obtain ⟨ns', s₁, hns, he⟩ := h
    cases he
    exact c.framed (.tag k p) ns s ns' s' rfl (expandAll c ns hns)
  | .mixin k (some ⟨ns, p⟩), s, n', s', h => by
    simp only [Templating.expand, expandBody, Link.bind_eq_ok, Link.pure_eq_ok] at h
    obtain ⟨_, _, ⟨ns', s₁, hns, hb⟩, he⟩ := h
    cases hb
    cases he
    exact c.framed (.mixin k p) ns s ns' s' rfl (expandAll c ns hns)
  | .includes f (some d) none p, s, n', s', h => by
    simp only [Templating.expand, expandBody, Link.bind_eq_ok, Link.pure_eq_ok] at h
    obtain ⟨_, _, hb, l, s₁, hl, he⟩ := h
    cases hb
    cases he
    obtain ⟨gs, -, hd⟩ := linkNode c d hl
    exact c.includes f d p s l s' gs hd
  | .includes f (some d) (some ⟨ns, q⟩) p, s, n', s', h => by
    simp only [Templating.expand, expandBody, Link.bind_eq_ok, Link.pure_eq_ok] at h
    obtain ⟨_, _, ⟨ns', s₁, hns, hb⟩, l, s₂, hl, he⟩ := h
    cases hb
    cases he
    obtain ⟨gs, -, hd⟩ := linkNode c d hl
    exact c.includesWith f d ns q p s ns' _ l s' gs (expandAll c ns hns) hd
  | .includes f none b p, s, n', s', h => by
    simp only [Templating.expand, Link.bind_eq_ok] at h
    obtain ⟨_, _, _, h⟩ := h
    exact absurd h Link.throw_ne_ok
  | .includesRaw f d us p, s, n', s', h => by
    cases ht : f.text with
    | none => simp [Templating.expand, ht, Link.throw_ne_ok] at h
    | some t =>
      simp only [Templating.expand, ht, Link.pure_eq_ok] at h
      cases h
      exact c.includesRaw f d us p s t ht
  | .mixin k none, s, n', s', h => by
    simp only [Templating.expand, expandBody, Link.bind_eq_ok, Link.pure_eq_ok] at h
    obtain ⟨_, _, hb, he⟩ := h
    cases hb
    cases he
    exact c.leaf _ s rfl rfl
  | .inherits .., s, n', s', h | .yield _, s, n', s', h | .text .., s, n', s', h => by
    simp only [Templating.expand, Link.pure_eq_ok] at h
    cases h
    exact c.leaf _ s rfl rfl
  termination_by n => sizeOf n

end

end LinkCases

/-- Induction along the chain of a successful link. -/
theorem linkNode_induction {motive : Node → Nat → Linked → Nat → Prop}
    (base : ∀ ns p s ns' s', (∀ n ∈ ns.head?, n.isInherits = false) →
      expandAll ns s = .ok (ns', s') →
      motive (.group ⟨ns, p⟩) s
        ⟨⟨(Node.declareAll ns' (s', .empty)).1, p⟩, (Node.declareAll ns' (s', .empty)).2.2, false⟩
        (Node.declareAll ns' (s', .empty)).2.1)
    (inherit : ∀ f d q ns p s ns' s' overrides parent s'' l,
      expandAll ns s = .ok (ns', s') →
      linkNode d (Node.declareAll ns' (s', .empty)).2.1 = .ok (parent, s'') →
      motive d (Node.declareAll ns' (s', .empty)).2.1 parent s'' →
      parent.inherit (Node.declareAll ns' (s', .empty)).1 (Node.declareAll ns' (s', .empty)).2.2
        overrides = .ok l →
      motive (.group ⟨.inherits f (some d) q :: ns, p⟩) s l s'') :
    ∀ (d : Node) {s : Nat} {l : Linked} {s' : Nat}, linkNode d s = .ok (l, s') → motive d s l s'
  | .group ⟨ns, p⟩, s, l, s', h => by
    by_cases hhead : ∀ n ∈ ns.head?, n.isInherits = false
    · obtain ⟨-, ns', s₁, hns, rfl, rfl⟩ := (linkNode_group_eq_ok hhead).mp h
      exact base ns p s ns' s₁ hhead hns
    · obtain ⟨f, d, q, rest, rfl⟩ := exists_of_not_head hhead
      cases d with
      | none =>
        simp only [linkNode, Link.bind_eq_ok] at h
        obtain ⟨_, _, _, _, _, _, _, _, _, _, _, _, h⟩ := h
        exact absurd h Link.throw_ne_ok
      | some d =>
        obtain ⟨-, ns, s₁, hns, overrides, -, parent, hparent, hl⟩ := linkNode_inherits_eq_ok.mp h
        exact inherit f d q rest p s ns s₁ overrides parent s' l hns hparent
          (linkNode_induction base inherit d hparent) hl
  | .block .., _, _, _, h | .inherits .., _, _, _, h | .includes .., _, _, _, h
  | .includesRaw .., _, _, _, h | .mixin .., _, _, _, h | .filter .., _, _, _, h
  | .yield _, _, _, _, h | .text .., _, _, _, h | .tag .., _, _, _, h => by
    exact absurd h Link.throw_ne_ok
  termination_by d => sizeOf d

end Templating
