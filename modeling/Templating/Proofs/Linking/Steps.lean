import Templating.Proofs.Linking.Standalone

/-!
# Links step by step

Linking and expansion, one equation for each thing they do, and the induction that goes with these
equations (`DocumentCases`). A statement about all links, also those that fail, is proved for each
of the steps. Two links are compared by the outcomes of their steps (`Outcomes`).
-/

namespace Templating

open Node

/-- The cases of an induction on documents and their nodes, along the steps of a link. -/
structure DocumentCases (linked : Node → Prop) (expanded : List Node → Prop) : Prop where
  /-- A document without a parent. -/
  base : ∀ ns p, (∀ n ∈ ns.head?, n.isInherits = false) → expanded ns → linked (.group ⟨ns, p⟩)
  /-- A document with a parent, which may be missing. -/
  inherit : ∀ f d q ns p, (∀ d' ∈ d, linked d') → expanded ns →
    linked (.group ⟨.inherits f d q :: ns, p⟩)
  /-- A node that is no document. -/
  other : ∀ n, n.isGroup = false → linked n
  nil : expanded []
  cons : ∀ n ns, expanded [n] → expanded ns → expanded (n :: ns)
  framed : ∀ F ns, (Node.framed F ns).isInclusion = false → expanded ns → expanded [.framed F ns]
  block : ∀ h ns, expanded ns → expanded [.block h ns]
  leaf : ∀ n, n.isLeaf → n.isInclusion = false → expanded [n]
  includesRaw : ∀ f d us p, expanded [.includesRaw f d us p]
  /-- An include, whose document may be missing. -/
  includes : ∀ f d b p, (∀ d' ∈ d, linked d') → (∀ c ∈ b, expanded c.nodes) →
    expanded [.includes f d b p]

namespace DocumentCases

variable {linked : Node → Prop} {expanded : List Node → Prop}

mutual

theorem document (c : DocumentCases linked expanded) : ∀ d : Node, linked d
  | .group ⟨ns, p⟩ => by
    by_cases hhead : ∀ n ∈ ns.head?, n.isInherits = false
    · exact c.base ns p hhead (nodes c ns)
    · obtain ⟨f, d, q, rest, rfl⟩ := exists_of_not_head hhead
      refine c.inherit f d q rest p ?_ (nodes c rest)
      cases d with
      | none => simp
      | some d => simpa using document c d
  | .block .. | .inherits .. | .includes .. | .includesRaw .. | .mixin .. | .filter ..
  | .yield _ | .text .. | .tag .. => c.other _ rfl
  termination_by d => sizeOf d

theorem nodes (c : DocumentCases linked expanded) : ∀ ns : List Node, expanded ns
  | [] => c.nil
  | n :: ns => c.cons n ns (node c n) (nodes c ns)
  termination_by ns => sizeOf ns

theorem node (c : DocumentCases linked expanded) : ∀ n : Node, expanded [n]
  | .group ⟨ns, p⟩ => c.framed (.group p) ns rfl (nodes c ns)
  | .block h ns => c.block h ns (nodes c ns)
  | .inherits .. => c.leaf _ rfl rfl
  | .includes f d b p => by
    refine c.includes f d b p ?_ ?_
    · cases d with
      | none => simp
      | some d => simpa using document c d
    · cases b with
      | none => simp
      | some b =>
        obtain ⟨ns, q⟩ := b
        simpa using nodes c ns
  | .includesRaw f d us p => c.includesRaw f d us p
  | .mixin _ none => c.leaf _ rfl rfl
  | .mixin h (some ⟨ns, p⟩) => c.framed (.mixin h p) ns rfl (nodes c ns)
  | .filter u ⟨ns, p⟩ => c.framed (.filter u p) ns rfl (nodes c ns)
  | .yield _ => c.leaf _ rfl rfl
  | .text .. => c.leaf _ rfl rfl
  | .tag h ⟨ns, p⟩ => c.framed (.tag h p) ns rfl (nodes c ns)
  termination_by n => sizeOf n

end

end DocumentCases

/-! ### Equations -/

theorem linkNode_inherits (f : Reference) (d : Node) (q p : Position) (ns : List Node) :
    linkNode (.group ⟨.inherits f (some d) q :: ns, p⟩) = (do
      checkInherits ns
      let ns ← expandAll ns
      let (ns, declared) ← declareBlocks ns
      let overrides ← overridesAll ns
      let parent ← linkNode d
      parent.inherit ns declared overrides) := rfl

theorem linkNode_inherits_none (f : Reference) (q p : Position) (ns : List Node) :
    linkNode (.group ⟨.inherits f none q :: ns, p⟩) = (do
      checkInherits ns
      let ns ← expandAll ns
      let (ns, _) ← declareBlocks ns
      let _ ← (liftM (overridesAll ns) : Link (List (String × Position)))
      throw (.unloaded .inherits f.path q)) := rfl

/-- A document that inherits from one that is not loaded does not link. -/
theorem linkNode_inherits_none_ne_ok {f : Reference} {q p : Position} {ns : List Node} {s : Nat}
    {r : Linked × Nat} : linkNode (.group ⟨.inherits f none q :: ns, p⟩) s ≠ .ok r := by
  rw [linkNode_inherits_none]
  simp only [ne_eq, Link.bind_eq_ok, not_exists, not_and]
  rintro - - - - - - - - - - - -
  exact Link.throw_ne_ok

theorem linkNode_of_not_group {n : Node} (h : n.isGroup = false) :
    linkNode n = throw (.notABlock n.kind) := by
  cases n <;> first | rfl | cases h

theorem expandAll_cons (n : Node) (ns : List Node) :
    expandAll (n :: ns) = (do
      let ms ← expandAll [n]
      let ms' ← expandAll ns
      pure (ms ++ ms')) := by
  simp [expandAll]

theorem expandAll_framed {F : Frame} {ns : List Node} (h : (framed F ns).isInclusion = false) :
    expandAll [framed F ns] = (do
      let ns ← expandAll ns
      pure [framed F ns]) := by
  cases F with
  | includes => cases h
  | _ => simp [framed, expandAll, expand, expandBody]

theorem expandAll_block (h : BlockHead) (ns : List Node) :
    expandAll [.block h ns] = (do
      let ns ← expandAll ns
      pure [.block h ns]) := by
  simp [expandAll, expand]

theorem expandAll_leaf {n : Node} (hn : n.isLeaf) (h : n.isInclusion = false) :
    expandAll [n] = pure [n] := by
  cases n, hn using leaf_cases with
  | includes => cases h
  | includesRaw => cases h
  | _ => simp [expandAll, expand, expandBody]

theorem expandAll_includesRaw (f : Reference) (d : Option Node) (us : List FilterUse)
    (p : Position) :
    expandAll [.includesRaw f d us p] =
      match f.text with
      | some t => pure [.text (withoutReturns t) p]
      | none => throw (.unloaded .includesRaw f.path p) := by
  cases hf : f.text with
  | none =>
    simp only [expandAll, expand, hf]
    rfl
  | some t => simp [expandAll, expand, hf]

theorem expandAll_includes (f : Reference) (d : Node) (b : Option Block) (p : Position) :
    expandAll [.includes f (some d) b p] = (do
      let b ← expandBody b
      let l ← linkNode d
      pure [.group (l.embedded.takeIn b)]) := by
  simp [expandAll, expand, Linked.embedded]

theorem expandAll_includes_none (f : Reference) (b : Option Block) (p : Position) :
    expandAll [.includes f none b p] = (do
      let _ ← expandBody b
      throw (.unloaded .includes f.path p)) := by
  simp [expandAll, expand]
  rfl

theorem expandBody_some (ns : List Node) (p : Position) :
    expandBody (some ⟨ns, p⟩) = (do
      let ns ← expandAll ns
      pure (some ⟨ns, p⟩)) := rfl

/-! ### Two links side by side -/

/-- Both computations fail, with errors related by `E`, or both give results related by `R`. -/
inductive Outcomes {ε α β : Type} (E : ε → ε → Prop) (R : α → β → Prop) :
    Except ε α → Except ε β → Prop where
  | error {e e' : ε} (h : E e e') : Outcomes E R (.error e) (.error e')
  | ok {a : α} {b : β} (h : R a b) : Outcomes E R (.ok a) (.ok b)

namespace Outcomes

variable {ε α β γ δ : Type} {E : ε → ε → Prop} {R : α → β → Prop} {x : Except ε α}
  {y : Except ε β}

theorem refl (x : Except ε α) : Outcomes Eq Eq x x := by
  cases x with
  | error e => exact .error rfl
  | ok a => exact .ok rfl

/-- Two computations that start alike. -/
theorem bind {S : γ → δ → Prop} {g : α → Except ε γ} {k : β → Except ε δ}
    (h : Outcomes E R x y)
    (hg : ∀ a b, R a b → x = .ok a → y = .ok b → Outcomes E S (g a) (k b)) :
    Outcomes E S (x >>= g) (y >>= k) := by
  cases h with
  | error he => exact .error he
  | ok hr => exact hg _ _ hr rfl rfl

theorem imp_error {E' : ε → ε → Prop} (h : Outcomes E R x y) (hE : ∀ e e', E e e' → E' e e') :
    Outcomes E' R x y := by
  cases h with
  | error he => exact .error (hE _ _ he)
  | ok hr => exact .ok hr

theorem exists_ok {b : β} (h : Outcomes E R x (.ok b)) : ∃ a, x = .ok a ∧ R a b := by
  cases h with
  | ok hr => exact ⟨_, rfl, hr⟩

end Outcomes

theorem Outcomes.link {E : TemplateError → TemplateError → Prop} {R : Linked → Linked → Prop}
    {d d' : Node} (h : Outcomes E (fun p q ↦ R p.1 q.1) (linkNode d 0) (linkNode d' 0)) :
    Outcomes E R (Templating.link d) (Templating.link d') :=
  h.bind fun _ _ hr _ _ ↦ .ok hr

/-- The link of a document with a parent, as a computation on the numbers drawn. -/
theorem linkNode_inherits_apply (f : Reference) (d : Node) (q p : Position) (ns : List Node)
    (s : Nat) :
    linkNode (.group ⟨.inherits f (some d) q :: ns, p⟩) s = (do
      checkInherits ns
      let x ← expandAll ns s
      let overrides ← overridesAll (declareAll x.1 (x.2, .empty)).1
      let y ← linkNode d (declareAll x.1 (x.2, .empty)).2.1
      let l ← y.1.inherit (declareAll x.1 (x.2, .empty)).1 (declareAll x.1 (x.2, .empty)).2.2
        overrides
      pure (l, y.2)) := by
  have hbind : ∀ {α β : Type} (x : Link α) (g : α → Link β) (s : Nat),
      (x >>= g) s = x s >>= fun y ↦ g y.1 y.2 := fun _ _ _ ↦ rfl
  have hlift : ∀ {α : Type} (x : Except TemplateError α) (s : Nat),
      (liftM x : Link α) s = x >>= fun a ↦ pure (a, s) := fun _ _ ↦ rfl
  have hdeclare : ∀ (ns : List Node) (s : Nat), declareBlocks ns s =
      pure (((declareAll ns (s, .empty)).1, (declareAll ns (s, .empty)).2.2),
        (declareAll ns (s, .empty)).2.1) := fun _ _ ↦ rfl
  simp only [linkNode_inherits, hbind, hlift, hdeclare, bind_assoc, pure_bind]

/-- The link of a document with a parent, from the link of the parent on. -/
theorem linkNode_inherits_of_ok {ns ms : List Node} {s s' : Nat}
    {overrides : List (String × Position)} (hfirst : firstInheritAll ns = none)
    (hexp : expandAll ns s = .ok (ms, s'))
    (hover : overridesAll (declareAll ms (s', .empty)).1 = .ok overrides) (f : Reference)
    (d : Node) (q p : Position) :
    linkNode (.group ⟨.inherits f (some d) q :: ns, p⟩) s = (do
      let y ← linkNode d (declareAll ms (s', .empty)).2.1
      let l ← y.1.inherit (declareAll ms (s', .empty)).1 (declareAll ms (s', .empty)).2.2 overrides
      pure (l, y.2)) := by
  rw [linkNode_inherits_apply, (Link.checkInherits_eq_ok (u := ())).mpr hfirst, hexp]
  change (overridesAll (declareAll ms (s', .empty)).1 >>= _) = _
  rw [hover]
  rfl

end Templating
