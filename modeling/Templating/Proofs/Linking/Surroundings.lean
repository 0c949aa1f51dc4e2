import Templating.Proofs.Linking.Inheriting
import Templating.Proofs.Linking.Renaming

/-!
# Places in an inherited document

What the documents that inherit from a linked one do to its tree: each puts mixin definitions in
front and overrides blocks (`Node.InheritedBy.exists_changes`). A place in the tree is told by what
stands around it (`Hole`). A change either keeps the place and acts on what is there by itself, or
replaces the content of a named block around it, and then it makes no difference what was there
(`Hole.runAll_fill`).
-/

namespace Templating

open Node

/-- A tree but for one place in it: the nodes, frames and named blocks around that place. -/
inductive Hole where
  | top (before after : List Node)
  | inFrame (before : List Node) (F : Frame) (inner : Hole) (after : List Node)
  | inBlock (before : List Node) (h : BlockHead) (inner : Hole) (after : List Node)

namespace Hole

/-- The tree with nodes in the hole. -/
def fill : Hole → List Node → List Node
  | top before after, ns => before ++ ns ++ after
  | inFrame before F K after, ns => before ++ framed F (K.fill ns) :: after
  | inBlock before h K after, ns => before ++ .block h (K.fill ns) :: after

/-- The named blocks around the hole, from the outside in. -/
def around : Hole → List BlockHead
  | top .. => []
  | inFrame _ _ K _ => K.around
  | inBlock _ h K _ => h :: K.around

/-- The hole when nodes are put in front of the tree and behind it. -/
def beside (pre post : List Node) : Hole → Hole
  | top before after => top (pre ++ before) (after ++ post)
  | inFrame before F K after => inFrame (pre ++ before) F K (after ++ post)
  | inBlock before h K after => inBlock (pre ++ before) h K (after ++ post)

theorem fill_beside (pre post : List Node) (K : Hole) (ns : List Node) :
    (K.beside pre post).fill ns = pre ++ K.fill ns ++ post := by
  cases K <;> simp [beside, fill]

@[simp] theorem around_beside (pre post : List Node) (K : Hole) :
    (K.beside pre post).around = K.around := by
  cases K <;> rfl

/-- The second hole, in the nodes in the first one. -/
def comp : Hole → Hole → Hole
  | top before after, L => L.beside before after
  | inFrame before F K after, L => inFrame before F (K.comp L) after
  | inBlock before h K after, L => inBlock before h (K.comp L) after

theorem fill_comp (K L : Hole) (ns : List Node) : (K.comp L).fill ns = K.fill (L.fill ns) := by
  induction K with
  | top before after => rw [comp, fill_beside, fill]
  | inFrame before F K after ih => rw [comp, fill, ih, fill]
  | inBlock before h K after ih => rw [comp, fill, ih, fill]

theorem fill_cons_ne_nil (K : Hole) (n : Node) (ns : List Node) : K.fill (n :: ns) ≠ [] := by
  cases K <;> simp [fill]

/-- An empty block has nothing in it but itself. -/
theorem eq_of_fill_eq_block {K : Hole} {n : Node} {h : BlockHead}
    (hK : K.fill [n] = [.block h []]) : n = .block h [] := by
  have halone : ∀ before m after, before ++ m :: after = [Node.block h []] → m = .block h [] := by
    intro before m after he
    simp only [List.append_eq_singleton_iff, List.cons.injEq, reduceCtorEq, and_false,
      or_false] at he
    exact he.2.1
  cases K with
  | top before after => exact halone before n after (by simpa [fill] using hK)
  | inFrame before F K after => cases F <;> cases halone _ _ _ hK
  | inBlock before k K after =>
    obtain ⟨-, hinner⟩ := Node.block.inj (halone _ _ _ hK)
    exact absurd hinner (K.fill_cons_ne_nil n [])

end Hole

/-- Declaring numbers the blocks of a node where it is. -/
theorem Hole.exists_declareAll_fill (K : Hole) (n : Node) (s : BlockId × Registry) :
    ∃ (K' : Hole) (n' : Node), (declareAll (K.fill [n]) s).1 = K'.fill [n'] ∧
      bareAll [n'] = bareAll [n] := by
  induction K generalizing s with
  | top before after =>
    simp only [fill, declareAll_append]
    exact ⟨top (declareAll before s).1 _, (declare n (declareAll before s).2).1, rfl,
      bareAll_declareAll [n] _⟩
  | inFrame before F K after ih =>
    obtain ⟨K', n', hK', hn'⟩ := ih (declareAll before s).2
    rw [fill, declareAll_append, declareAll_cons, declare_framed, hK']
    exact ⟨inFrame _ F K' _, n', rfl, hn'⟩
  | inBlock before h K after ih =>
    let h' := numbered (declareAll before s).2.1 h
    obtain ⟨K', n', hK', hn'⟩ := ih (lastAfter (declareAll before s).2.1 h,
      (declareAll before s).2.2.enter h')
    rw [fill, declareAll_append, declareAll_cons, declare_block, hK']
    exact ⟨inBlock _ h' K' _, n', rfl, hn'⟩

/-- What an inheriting document does to the tree of its parent. -/
inductive Change where
  | override (targets : List BlockId) (mode : Mode) (content : List Node)
  /-- Mixin definitions are put in front. -/
  | front (mixins : List Node)

namespace Change

/-- The tree after the change. -/
def run : Change → List Node → List Node
  | override targets mode content, ns => amendAll targets mode content ns
  | front mixins, ns => mixins ++ ns

/-- Nodes somewhere in the tree after the change. -/
def within : Change → List Node → List Node
  | override targets mode content, ns => amendAll targets mode content ns
  | front _, ns => ns

/-- The tree after changes, the first one first. -/
def runAll (cs : List Change) (ns : List Node) : List Node := cs.foldl (fun ns c ↦ c.run ns) ns

/-- Nodes somewhere in the tree after changes. -/
def withinAll (cs : List Change) (ns : List Node) : List Node :=
  cs.foldl (fun ns c ↦ c.within ns) ns

/-- The change replaces the content of the block. -/
def Replaces (c : Change) (h : BlockHead) : Prop :=
  ∃ targets content, c = override targets .replace content ∧ h.isAmong targets

theorem exists_withinAll_singleton (cs : List Change) (n : Node) :
    ∃ n', withinAll cs [n] = [n'] := by
  induction cs generalizing n with
  | nil => exact ⟨n, rfl⟩
  | cons c cs ih =>
    cases c with
    | override targets mode content => exact ih (amend targets mode content n)
    | front => exact ih n

end Change

/-- The combined content of a block that is not replaced keeps its own content in the middle. -/
theorem Mode.exists_combine_eq {mode : Mode} (h : mode ≠ .replace) (content : List Node) :
    ∃ pre post, ∀ own, mode.combine own content = pre ++ own ++ post := by
  cases mode with
  | replace => exact absurd rfl h
  | append => exact ⟨[], content, fun own ↦ rfl⟩
  | prepend => exact ⟨content, [], fun own ↦ by simp [Mode.combine]⟩

theorem Node.amendAll_append (targets : List BlockId) (mode : Mode) (content ns ms : List Node) :
    amendAll targets mode content (ns ++ ms) =
      amendAll targets mode content ns ++ amendAll targets mode content ms := by
  induction ns with
  | nil => rfl
  | cons n ns ih => rw [List.cons_append, amendAll, amendAll, ih, List.cons_append]

namespace Hole

/-- An override keeps a place and acts on what is there, unless it replaces the content of a block
around it. -/
theorem amendAll_fill (targets : List BlockId) (mode : Mode) (content : List Node) (K : Hole) :
    (∃ K' : Hole, K'.around = K.around ∧ ∀ ns, amendAll targets mode content (K.fill ns) =
        K'.fill (amendAll targets mode content ns)) ∨
      ((∃ h ∈ K.around, (Change.override targets mode content).Replaces h) ∧
        ∃ ms, ∀ ns, amendAll targets mode content (K.fill ns) = ms) := by
  have hcons : ∀ n ns, amendAll targets mode content (n :: ns) =
      amend targets mode content n :: amendAll targets mode content ns := fun _ _ ↦ rfl
  induction K with
  | top before after =>
    refine .inl ⟨top (amendAll targets mode content before) (amendAll targets mode content after),
      rfl, fun ns ↦ ?_⟩
    simp only [fill, amendAll_append]
  | inFrame before F K after ih =>
    simp only [fill, amendAll_append, hcons, amend_framed]
    rcases ih with ⟨K', haround, hK'⟩ | ⟨hreplaced, ms, hms⟩
    · refine .inl ⟨inFrame (amendAll targets mode content before) F K'
        (amendAll targets mode content after), haround, fun ns ↦ ?_⟩
      rw [hK']
      rfl
    · exact .inr ⟨hreplaced, _, fun ns ↦ by rw [hms]⟩
  | inBlock before h K after ih =>
    simp only [fill, amendAll_append, hcons, amend_block]
    by_cases hreplaced : h.isAmong targets ∧ mode = .replace
    · obtain ⟨hh, rfl⟩ := hreplaced
      exact .inr ⟨⟨h, List.mem_cons_self, targets, content, rfl, hh⟩, _, fun ns ↦ by
        rw [if_pos hh, Mode.combine]⟩
    · -- what the override makes of the block's content keeps that content in one piece
      obtain ⟨pre, post, hkeep⟩ : ∃ pre post, ∀ own, (if h.isAmong targets then
          mode.combine own content else own) = pre ++ own ++ post := by
        by_cases hh : h.isAmong targets
        · simp only [hh, if_true]
          exact Mode.exists_combine_eq (fun hm ↦ hreplaced ⟨hh, hm⟩) content
        · exact ⟨[], [], fun own ↦ by simp [hh]⟩
      simp only [hkeep]
      rcases ih with ⟨K', haround, hK'⟩ | ⟨⟨k, hk, hreplaces⟩, ms, hms⟩
      · refine .inl ⟨inBlock (amendAll targets mode content before) h (K'.beside pre post)
          (amendAll targets mode content after), ?_, fun ns ↦ ?_⟩
        · rw [around, around, around_beside, haround]
        · rw [hK', fill, fill_beside]
      · exact .inr ⟨⟨k, List.mem_cons_of_mem h hk, hreplaces⟩, _, fun ns ↦ by rw [hms]⟩

theorem run_fill (c : Change) (K : Hole) :
    (∃ K' : Hole, K'.around = K.around ∧ ∀ ns, c.run (K.fill ns) = K'.fill (c.within ns)) ∨
      ((∃ h ∈ K.around, c.Replaces h) ∧ ∃ ms, ∀ ns, c.run (K.fill ns) = ms) := by
  cases c with
  | override targets mode content => exact amendAll_fill targets mode content K
  | front mixins =>
    refine .inl ⟨K.beside mixins [], around_beside mixins [] K, fun ns ↦ ?_⟩
    rw [fill_beside, List.append_nil]
    rfl

/-- Changes one after another keep a place and act on what is there, until one of them replaces the
content of a block around it. -/
theorem runAll_fill (cs : List Change) (K : Hole) :
    (∃ K' : Hole, K'.around = K.around ∧
        ∀ ns, Change.runAll cs (K.fill ns) = K'.fill (Change.withinAll cs ns)) ∨
      ((∃ c ∈ cs, ∃ h ∈ K.around, c.Replaces h) ∧
        ∃ ms, ∀ ns, Change.runAll cs (K.fill ns) = ms) := by
  induction cs generalizing K with
  | nil => exact .inl ⟨K, rfl, fun ns ↦ rfl⟩
  | cons c cs ih =>
    have hcons : ∀ ns, Change.runAll (c :: cs) ns = Change.runAll cs (c.run ns) := fun _ ↦ rfl
    simp only [hcons]
    rcases run_fill c K with ⟨K', haround, hK'⟩ | ⟨hreplaced, ms, hms⟩
    · simp only [hK', ← haround]
      rcases ih K' with ⟨K'', haround', hK''⟩ | ⟨⟨c', hc', hreplaced⟩, ms, hms⟩
      · exact .inl ⟨K'', haround', fun ns ↦ hK'' _⟩
      · exact .inr ⟨⟨c', List.mem_cons_of_mem c hc', hreplaced⟩, ms, fun ns ↦ hms _⟩
    · simp only [hms]
      exact .inr ⟨⟨c, List.mem_cons_self, hreplaced⟩, _, fun ns ↦ rfl⟩

end Hole

/-! ### Inheriting documents -/

/-- The other document is `P`, or it inherits from a document of which that holds. -/
inductive Node.InheritedBy (P : Node) : Node → Prop where
  | self : InheritedBy P P
  | step {f : Reference} {d : Node} {q p : Position} {ns : List Node} :
    InheritedBy P d → InheritedBy P (.group ⟨.inherits f (some d) q :: ns, p⟩)

/-- What the merge of a child changes in the tree of its parent: each of its overrides, in the order
of the child, and then its mixin definitions. -/
def Linked.changes (parent : Linked) (child : List Node) (r : Registry) : List Change :=
  let merged := (mergeAll parent.declared [] child ⟨parent.root.nodes, r⟩).1
  let overriding (b : NamedBlock) : Change :=
    .override (parent.declared.targets b.head.name) b.head.mode b.nodes
  (outermostAll [] merged).map overriding ++ [.front (topMixinsAll merged)]

theorem Linked.nodes_of_inherit {parent l : Linked} {child : List Node} {r : Registry}
    {overrides : List (String × Position)} (h : parent.inherit child r overrides = .ok l) :
    l.root.nodes = Change.runAll (parent.changes child r) parent.root.nodes := by
  obtain ⟨-, rfl⟩ := Linked.inherit_eq_ok.mp h
  rw [Change.runAll, Linked.changes, List.foldl_append, List.foldl_map, List.foldl_cons,
    List.foldl_nil]
  exact congrArg (topMixinsAll _ ++ ·) (parent_mergeAll ..)

/-- The link of the other document, when `u` is the last number drawn, links `P` to `lP`, and the
documents between make the changes to the tree. -/
inductive Node.ChangedBy (P : Node) : Node → Nat → Linked → List Change → Prop where
  | self {u u' : Nat} {lP : Linked} : linkNode P u = .ok (lP, u') → ChangedBy P P u lP []
  | step {f : Reference} {d : Node} {q p : Position} {rest ns : List Node} {u u₁ u₂ : Nat}
    {parent lP : Linked} {cs : List Change} :
    expandAll rest u = .ok (ns, u₁) →
    linkNode d (declareAll ns (u₁, .empty)).2.1 = .ok (parent, u₂) →
    ChangedBy P d (declareAll ns (u₁, .empty)).2.1 lP cs →
    ChangedBy P (.group ⟨.inherits f (some d) q :: rest, p⟩) u lP
      (cs ++ parent.changes (declareAll ns (u₁, .empty)).1 (declareAll ns (u₁, .empty)).2.2)

theorem Node.ChangedBy.exists_link {P X : Node} {u : Nat} {lP : Linked} {cs : List Change}
    (h : P.ChangedBy X u lP cs) : ∃ s s', linkNode P s = .ok (lP, s') := by
  induction h with
  | self hP => exact ⟨_, _, hP⟩
  | step _ _ _ ih => exact ih

/-- The link of a document that inherits from `P` is that of `P` with the changes. -/
theorem Node.InheritedBy.exists_changes {P X : Node} (h : P.InheritedBy X) {u u' : Nat}
    {lX : Linked} (hX : linkNode X u = .ok (lX, u')) :
    ∃ lP cs, P.ChangedBy X u lP cs ∧ lX.root.nodes = Change.runAll cs lP.root.nodes := by
  induction h generalizing u u' lX with
  | self => exact ⟨lX, [], .self hX, rfl⟩
  | step _ ih =>
    obtain ⟨-, ns, u₁, hns, _, -, parent, hparent, hinherit⟩ := linkNode_inherits_eq_ok.mp hX
    obtain ⟨lP, cs, hP, hcs⟩ := ih hparent
    refine ⟨lP, _, .step hns hparent hP, ?_⟩
    rw [Linked.nodes_of_inherit hinherit, hcs, Change.runAll, Change.runAll, Change.runAll,
      List.foldl_append]

end Templating
