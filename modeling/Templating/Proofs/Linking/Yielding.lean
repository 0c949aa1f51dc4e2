import Templating.Proofs.Linking.Induction
import Templating.Proofs.Node.Overriding

/-!
# Blocks under yield placement

Content put at yield points goes into the named blocks of the included document as well, and into
all copies of a block alike. Content put at the default place never goes into a named block
(`placeDefault_induction`). Either way heads do not matter (`Block.mapHeads_takeIn`).
-/

namespace Templating

/-- A sequence in the frame can be entered for the default place. -/
def Frame.opens (F : Frame) (isEmpty : Bool) : Bool :=
  match F with
  | .group _ => true
  | .tag k _ => !k.textOnly && !isEmpty
  | _ => !isEmpty

/-- A sequence with other heads on its named blocks. -/
def Block.mapHeads (g : BlockHead → BlockHead) (b : Block) : Block :=
  { b with nodes := Node.mapHeadsAll g b.nodes }

namespace Node

/-! ### Yield points -/

@[simp] theorem hasYieldAll_nil : hasYieldAll [] = false := rfl

@[simp] theorem hasYieldAll_cons (n : Node) (ns : List Node) :
    hasYieldAll (n :: ns) = (hasYield n || hasYieldAll ns) := rfl

@[simp] theorem hasYield_framed (F : Frame) (ns : List Node) :
    hasYield (framed F ns) = hasYieldAll ns := by
  cases F <;> rfl

@[simp] theorem hasYield_block (h : BlockHead) (ns : List Node) :
    hasYield (.block h ns) = hasYieldAll ns := rfl

theorem hasYieldAll_mapHeadsAll (f : BlockHead → BlockHead) (ns : List Node) :
    hasYieldAll (mapHeadsAll f ns) = hasYieldAll ns := by
  induction ns using forest_induction with
  | nil => rfl
  | leaf n ns hn ih => simp [mapHeadsAll_cons_leaf hn, ih]
  | frame F inner ns ihi ih => simp [mapHeadsAll_cons_framed, ihi, ih]
  | block h inner ns ihi ih => simp [mapHeadsAll_cons_block, ihi, ih]

theorem fillYields_framed (content : Block) (F : Frame) (ns : List Node) :
    fillYields content (framed F ns) = framed F (fillYieldsAll content ns) := by
  cases F <;> rfl

/-- A leaf is replaced if it is a yield point. -/
theorem fillYields_leaf {n : Node} (h : isLeaf n) :
    (∃ p, ∀ content, fillYields content n = .group ⟨[.group content], p⟩) ∨
      ∀ content, fillYields content n = n := by
  cases n, h using leaf_cases with
  | yield p => exact .inl ⟨p, fun _ ↦ rfl⟩
  | inherits => exact .inr fun _ ↦ rfl
  | includes => exact .inr fun _ ↦ rfl
  | includesRaw => exact .inr fun _ ↦ rfl
  | mixin => exact .inr fun _ ↦ rfl
  | text => exact .inr fun _ ↦ rfl

/-- Filling yield points, seen through a change of heads. -/
theorem mapHeadsAll_fillYieldsAll (f : BlockHead → BlockHead) (content : Block)
    (ns : List Node) :
    mapHeadsAll f (fillYieldsAll content ns) =
      fillYieldsAll (content.mapHeads f) (mapHeadsAll f ns) := by
  induction ns using forest_induction with
  | nil => rfl
  | leaf n ns hn ih =>
    rcases fillYields_leaf hn with ⟨p, hy⟩ | hy
    · rw [mapHeadsAll_cons_leaf hn]
      simp only [fillYieldsAll, hy]
      exact congrArg (_ :: ·) ih
    · simp [fillYieldsAll, mapHeadsAll_cons_leaf hn, hy, ih]
  | frame F inner ns ihi ih =>
    simp [fillYieldsAll, fillYields_framed, mapHeadsAll_cons_framed, ihi, ih]
  | block h inner ns ihi ih =>
    simp [fillYieldsAll, fillYields, mapHeadsAll_cons_block, ihi, ih]

/-- A block of a filled document was there before and has been filled, or comes with the
content. -/
theorem mem_blocksAll_fillYieldsAll {content : Block} {ns : List Node} {b : NamedBlock}
    (hb : b ∈ blocksAll (fillYieldsAll content ns)) :
    (∃ xs, ⟨b.head, xs⟩ ∈ blocksAll ns ∧ b.nodes = fillYieldsAll content xs) ∨
      b ∈ blocksAll content.nodes := by
  induction ns using forest_induction with
  | nil => cases hb
  | leaf n ns hn ih =>
    rcases fillYields_leaf hn with ⟨p, hy⟩ | hy
    · simp only [fillYieldsAll, hy, blocksAll_cons, blocks, blocksAll_nil, List.append_nil,
        List.mem_append] at hb
      rcases hb with hb | hb
      · exact .inr hb
      · simpa [blocks_leaf hn] using ih hb
    · simp only [fillYieldsAll, hy, blocksAll_cons, blocks_leaf hn, List.nil_append] at hb ⊢
      exact ih hb
  | frame F inner ns ihi ih =>
    simp only [fillYieldsAll, fillYields_framed, blocksAll_cons, blocks_framed,
      List.mem_append] at hb ⊢
    grind
  | block h inner ns ihi ih =>
    simp only [fillYieldsAll, fillYields, blocksAll_cons, blocks_block, List.cons_append,
      List.mem_cons, List.mem_append] at hb ⊢
    grind

/-! ### The default place -/

theorem enterWith_leaf {n : Node} (h : isLeaf n) (content : Block) :
    enterWith content n = none := by
  cases n, h using leaf_cases <;> rfl

/-- A frame is entered at the default place of its sequence. -/
theorem enterWith_framed (content : Block) (F : Frame) (ns : List Node) :
    enterWith content (framed F ns) =
      if F.opens ns.isEmpty then some (framed F (placeDefault content ns)) else none := by
  cases F with
  | group p => rfl
  | tag k p =>
    cases ns with
    | nil => simp [framed, enterWith, Frame.opens]
    | cons => cases hk : k.textOnly <;> simp [framed, enterWith, placeDefault, Frame.opens, hk]
  | _ => cases ns <;> rfl

/-- Content comes into the last node that can be entered, or into the first one when no later
one can be entered. -/
theorem placeLast_cons (content : Block) (n : Node) (ns : List Node) :
    placeLast content (n :: ns) =
      ((placeLast content ns).map (n :: ·)).or ((enterWith content n).map (· :: ns)) := by
  rw [placeLast]
  cases placeLast content ns <;> rfl

/-- Content at the default place stands at the end of a sequence, which is the whole document or
the one of a frame. -/
theorem placeDefault_induction {content : Block} {motive : List Node → List Node → Prop}
    (append : ∀ ns, motive ns (ns ++ [.group content]))
    (skip : ∀ n ns ms, motive ns ms → motive (n :: ns) (n :: ms))
    (enter : ∀ F inner ms ns, motive inner ms → motive (framed F inner :: ns) (framed F ms :: ns))
    (ns : List Node) : motive ns (placeDefault content ns) := by
  have hdefault : ∀ ns, (∀ ms, placeLast content ns = some ms → motive ns ms) →
      motive ns (placeDefault content ns) := by
    intro ns h
    unfold placeDefault
    cases hp : placeLast content ns with
    | none => exact append ns
    | some ms => exact h ms hp
  have hcons : ∀ n ns, (∀ ms, placeLast content ns = some ms → motive ns ms) →
      (∀ n', enterWith content n = some n' → motive (n :: ns) (n' :: ns)) →
      ∀ ms, placeLast content (n :: ns) = some ms → motive (n :: ns) ms := by
    intro n ns hskip henter ms hms
    rw [placeLast_cons] at hms
    rcases Option.or_eq_some_iff.mp hms with h | ⟨-, h⟩
    · obtain ⟨ms', hms', rfl⟩ := Option.map_eq_some_iff.mp h
      exact skip n ns ms' (hskip ms' hms')
    · obtain ⟨n', hn', rfl⟩ := Option.map_eq_some_iff.mp h
      exact henter n' hn'
  apply hdefault
  induction ns using forest_induction with
  | nil =>
    intro ms h
    cases h
  | leaf n ns hn ih =>
    refine hcons n ns ih fun n' hn' ↦ ?_
    rw [enterWith_leaf hn] at hn'
    cases hn'
  | frame F inner ns ihi ih =>
    refine hcons _ ns ih fun n' hn' ↦ ?_
    rw [enterWith_framed] at hn'
    split at hn' <;> cases hn'
    exact enter F inner _ ns (hdefault inner ihi)
  | block h inner ns ihi ih =>
    refine hcons _ ns ih fun n' hn' ↦ ?_
    cases hn'

section

variable {g : BlockHead → BlockHead} {content : Block}

/-- Content at the default place goes through a change of heads if content in the last node that
can be entered does. -/
theorem mapHeadsAll_placeDefault_of_placeLast {ns : List Node}
    (h : (placeLast content ns).map (mapHeadsAll g) =
      placeLast (content.mapHeads g) (mapHeadsAll g ns)) :
    mapHeadsAll g (placeDefault content ns) =
      placeDefault (content.mapHeads g) (mapHeadsAll g ns) := by
  rw [placeDefault, placeDefault, ← h]
  cases placeLast content ns with
  | none => exact mapHeadsAll_append g ns [.group content]
  | some ms => rfl

theorem mapHeadsAll_placeLast_cons {n n' : Node} {ns : List Node}
    (hn : ∀ ms, mapHeadsAll g (n :: ms) = n' :: mapHeadsAll g ms)
    (henter : (enterWith content n).map (fun m ↦ mapHeadsAll g [m]) =
      (enterWith (content.mapHeads g) n').map (fun m ↦ [m]))
    (hns : (placeLast content ns).map (mapHeadsAll g) =
      placeLast (content.mapHeads g) (mapHeadsAll g ns)) :
    (placeLast content (n :: ns)).map (mapHeadsAll g) =
      placeLast (content.mapHeads g) (mapHeadsAll g (n :: ns)) := by
  rw [hn, placeLast_cons, placeLast_cons, ← hns]
  cases placeLast content ns with
  | some ms => simp [hn]
  | none =>
    cases he : enterWith content n <;> cases he' : enterWith (content.mapHeads g) n' <;>
      simp_all [mapHeadsAll]

/-- Content at the default place, seen through a change of heads. -/
theorem mapHeadsAll_placeDefault (g : BlockHead → BlockHead) (content : Block) (ns : List Node) :
    mapHeadsAll g (placeDefault content ns) =
      placeDefault (content.mapHeads g) (mapHeadsAll g ns) := by
  apply mapHeadsAll_placeDefault_of_placeLast
  induction ns using forest_induction with
  | nil => rfl
  | leaf n ns hn ih =>
    refine mapHeadsAll_placeLast_cons (fun _ ↦ mapHeadsAll_cons_leaf hn _) ?_ ih
    simp [enterWith_leaf hn]
  | frame F inner ns ihi ih =>
    refine mapHeadsAll_placeLast_cons (fun _ ↦ mapHeadsAll_cons_framed F inner _) ?_ ih
    rw [enterWith_framed, enterWith_framed, isEmpty_mapHeadsAll,
      ← mapHeadsAll_placeDefault_of_placeLast ihi]
    split <;> simp
  | block h inner ns ihi ih =>
    exact mapHeadsAll_placeLast_cons (fun _ ↦ mapHeadsAll_cons_block h inner _) rfl ih

end

/-- A block of a document with content at the default place was there before, or comes with the
content. -/
theorem mem_blocksAll_placeDefault {content : Block} {ns : List Node} {b : NamedBlock}
    (hb : b ∈ blocksAll (placeDefault content ns)) :
    b ∈ blocksAll ns ∨ b ∈ blocksAll content.nodes := by
  refine placeDefault_induction (motive := fun ns ms ↦
    b ∈ blocksAll ms → b ∈ blocksAll ns ∨ b ∈ blocksAll content.nodes) ?append ?skip ?enter ns hb
  case append =>
    intro ns hb
    simpa [blocks] using hb
  case skip =>
    intro n ns ms ih hb
    rw [blocksAll_cons, List.mem_append] at hb ⊢
    exact hb.elim (fun h ↦ .inl (.inl h)) fun h ↦ (ih h).imp_left .inr
  case enter =>
    intro F inner ms ns ih hb
    rw [blocksAll_cons, blocks_framed, List.mem_append] at hb ⊢
    exact hb.elim (fun h ↦ (ih h).imp_left .inl) fun h ↦ .inl (.inr h)

end Node

/-- A document that takes content in, seen through a change of heads. -/
theorem Block.mapHeads_takeIn (g : BlockHead → BlockHead) (root : Block)
    (content : Option Block) :
    (root.takeIn content).mapHeads g =
      (root.mapHeads g).takeIn (content.map (Block.mapHeads g)) := by
  cases content with
  | none => rfl
  | some c =>
    simp only [Option.map_some, Block.takeIn, Block.mapHeads, Node.isEmpty_mapHeadsAll,
      Node.hasYieldAll_mapHeadsAll]
    split
    · rfl
    · split
      · simp only [Node.mapHeadsAll_fillYieldsAll, Block.mapHeads]
      · simp only [Node.mapHeadsAll_placeDefault, Block.mapHeads]

/-- A block of a document that takes content in was there before, with content changed in the
same way in all copies, or comes with the content. -/
theorem exists_mem_blocksAll_takeIn (root : Block) (content : Option Block) :
    ∃ φ : List Node → List Node,
      (∀ xs ys, Node.bareAll xs = Node.bareAll ys → Node.bareAll (φ xs) = Node.bareAll (φ ys)) ∧
      ∀ b ∈ Node.blocksAll (root.takeIn content).nodes,
        (∃ xs, ⟨b.head, xs⟩ ∈ Node.blocksAll root.nodes ∧ b.nodes = φ xs) ∨
          ∃ c, content = some c ∧ b ∈ Node.blocksAll c.nodes := by
  have same : ∀ b ∈ Node.blocksAll root.nodes,
      (∃ xs, ⟨b.head, xs⟩ ∈ Node.blocksAll root.nodes ∧ b.nodes = id xs) ∨
        ∃ c, content = some c ∧ b ∈ Node.blocksAll c.nodes :=
    fun b hb ↦ .inl ⟨b.nodes, hb, rfl⟩
  cases content with
  | none => exact ⟨id, fun _ _ h ↦ h, same⟩
  | some c =>
    unfold Block.takeIn
    by_cases hc : c.nodes.isEmpty
    · simp only [hc, if_true]
      exact ⟨id, fun _ _ h ↦ h, same⟩
    · by_cases hy : Node.hasYieldAll root.nodes
      · simp only [hc, hy, if_true]
        refine ⟨Node.fillYieldsAll c, fun xs ys h ↦ ?_, fun b hb ↦ ?_⟩
        · unfold Node.bareAll at h ⊢
          rw [Node.mapHeadsAll_fillYieldsAll, Node.mapHeadsAll_fillYieldsAll, h]
        · rcases Node.mem_blocksAll_fillYieldsAll hb with h | h
          · exact .inl h
          · exact .inr ⟨c, rfl, h⟩
      · simp only [hc, hy]
        refine ⟨id, fun _ _ h ↦ h, fun b hb ↦ ?_⟩
        rcases Node.mem_blocksAll_placeDefault hb with h | h
        · exact same b h
        · exact .inr ⟨c, rfl, h⟩

end Templating
