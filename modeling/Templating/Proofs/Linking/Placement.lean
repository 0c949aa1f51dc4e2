import Templating.Proofs.Linking.Yielding
import Templating.Proofs.Node.Members
import Templating.Proofs.Linking.Standalone
import Templating.Walk

/-!
# Where the content of an include site goes

Content goes to all yield points of the included document at once, each of which is a leaf of the
tree, or else behind the last node of one container. The way to that container is a list of layers
(`Layer`), as each sequence on the way is split at the node that is entered (`LeadsTo`). It does not
depend on the content, and filling the innermost layer again gives the tree (`plug`).
-/

namespace Templating

/-- The frame of a tag of plain text. -/
def Frame.textOnly : Frame → Bool
  | .tag h _ => h.textOnly
  | _ => false

/-- The frame of a mixin definition. -/
def Frame.isDefinition : Frame → Bool
  | .mixin h _ => !h.isCall
  | _ => false

namespace Node

/-! ### Yield points -/

/-- The position of a yield point. -/
def yieldPoint? : Node → Option Position
  | .yield p => some p
  | _ => none

/-- The yield points of nodes, by their positions. -/
def yieldPoints (ns : List Node) : List Position := (membersAll ns).filterMap yieldPoint?

mutual

/-- A node with other nodes in place of its leaves. They are not entered. -/
def mapLeaves (f : Node → Node) : Node → Node
  | .group ⟨ns, p⟩ => .group ⟨mapLeavesAll f ns, p⟩
  | .block h ns => .block h (mapLeavesAll f ns)
  | .includes g d (some ⟨ns, p⟩) q => .includes g d (some ⟨mapLeavesAll f ns, p⟩) q
  | .mixin h (some ⟨ns, p⟩) => .mixin h (some ⟨mapLeavesAll f ns, p⟩)
  | .filter u ⟨ns, p⟩ => .filter u ⟨mapLeavesAll f ns, p⟩
  | .tag h ⟨ns, p⟩ => .tag h ⟨mapLeavesAll f ns, p⟩
  | n => f n
  termination_by structural n => n

/-- Nodes with other nodes in place of their leaves. -/
def mapLeavesAll (f : Node → Node) : List Node → List Node
  | [] => []
  | n :: ns => mapLeaves f n :: mapLeavesAll f ns
  termination_by structural ns => ns

end

/-- What stands in the place of a leaf when content is put at the yield points. -/
def yielded (content : Block) : Node → Node
  | .yield p => .group ⟨[.group content], p⟩
  | n => n

theorem yieldPoints_cons (n : Node) (ns : List Node) :
    yieldPoints (n :: ns) = yieldPoints [n] ++ yieldPoints ns := by
  simp [yieldPoints]

theorem yieldPoints_framed (F : Frame) (ns : List Node) :
    yieldPoints [framed F ns] = yieldPoints ns := by
  have hframe : yieldPoint? (framed F ns) = none := by cases F <;> rfl
  simp [yieldPoints, members_framed, hframe]

theorem yieldPoints_block (h : BlockHead) (ns : List Node) :
    yieldPoints [.block h ns] = yieldPoints ns := by
  simp [yieldPoints, yieldPoint?, List.filterMap_cons]

theorem hasYieldAll_iff {ns : List Node} : hasYieldAll ns = true ↔ yieldPoints ns ≠ [] := by
  induction ns using forest_induction with
  | nil => simp [yieldPoints]
  | leaf n ns hn ih =>
    rw [hasYieldAll_cons, yieldPoints_cons]
    cases n, hn using leaf_cases <;> simp [hasYield, yieldPoints, yieldPoint?, members, ih]
  | frame F inner ns ihi ih =>
    rw [yieldPoints_cons, yieldPoints_framed]
    simp [ihi, ih, imp_iff_not_or]
  | block h inner ns ihi ih =>
    rw [yieldPoints_cons, yieldPoints_block]
    simp [ihi, ih, imp_iff_not_or]

/-- Content is put in the place of leaves. -/
theorem fillYieldsAll_eq_mapLeavesAll (content : Block) (ns : List Node) :
    fillYieldsAll content ns = mapLeavesAll (yielded content) ns := by
  induction ns using forest_induction with
  | nil => rfl
  | leaf n ns hn ih =>
    rw [fillYieldsAll, mapLeavesAll, ih]
    cases n, hn using leaf_cases <;> rfl
  | frame F inner ns ihi ih =>
    rw [fillYieldsAll, mapLeavesAll, fillYields_framed, ihi, ih]
    cases F <;> rfl
  | block h inner ns ihi ih => rw [fillYieldsAll, mapLeavesAll, fillYields, mapLeaves, ihi, ih]

/-- The yield points of the content are there afterwards, once for each yield point that it was
put at, and no others. -/
theorem yieldPoints_fillYieldsAll (content : Block) (ns : List Node) :
    yieldPoints (fillYieldsAll content ns) =
      (yieldPoints ns).flatMap fun _ ↦ yieldPoints content.nodes := by
  induction ns using forest_induction with
  | nil => rfl
  | leaf n ns hn ih =>
    rw [fillYieldsAll, yieldPoints_cons, ih, yieldPoints_cons n, List.flatMap_append]
    cases n, hn using leaf_cases <;>
      simp [fillYields, yieldPoints, yieldPoint?, members, List.filterMap_cons]
  | frame F inner ns ihi ih =>
    rw [fillYieldsAll, fillYields_framed, yieldPoints_cons, yieldPoints_framed, ihi, ih,
      yieldPoints_cons (framed F inner), yieldPoints_framed, List.flatMap_append]
  | block h inner ns ihi ih =>
    rw [fillYieldsAll, fillYields, yieldPoints_cons, yieldPoints_block, ihi, ih,
      yieldPoints_cons (.block h inner), yieldPoints_block, List.flatMap_append]

/-! ### The walk to the yield points -/

/-- Meets every node behind its children, and puts content in the place of a yield point. The state
tells whether there was one. -/
def yieldVisitor (content : Block) : Visitor Bool Empty where
  before filled n := ⟨filled, n, .ok .proceed⟩
  after filled n := ⟨filled || (yieldPoint? n).isSome, yielded content n, .ok .proceed⟩

theorem children_framed {σ ε : Type} (one : σ → Node → Option (σ × Fate ε)) (s : σ) (F : Frame)
    (ns : List Node) :
    Walk.children one false s (framed F ns) =
      (Walk.siblings one s ns).map fun t ↦ ⟨t.state, framed F t.left, t.stopped⟩ := by
  cases F with
  | includes f d p q =>
    have hdocument : Walk.document one false s d = some ⟨s, d, none⟩ := by cases d <;> rfl
    simp only [framed, Walk.children, hdocument, Walk.body, Option.map_map]
    rfl
  | mixin h p =>
    simp only [framed, Walk.children, Walk.body, Option.map_map]
    rfl
  | _ => rfl

theorem children_leaf {σ ε : Type} {n : Node} (hn : isLeaf n)
    (one : σ → Node → Option (σ × Fate ε)) (s : σ) :
    Walk.children one false s n = some ⟨s, n, none⟩ := by
  cases n, hn using leaf_cases with
  | inherits f d p => cases d <;> rfl
  | includes f d p => cases d <;> rfl
  | includesRaw f d us p => cases d <;> rfl
  | mixin => rfl
  | yield => rfl
  | text => rfl

theorem levels_pos (n : Node) : 0 < levels n := by
  cases n <;> simp [levels]

theorem levelsAll_lt_levels_framed (F : Frame) (ns : List Node) :
    levelsAll ns < levels (framed F ns) := by
  cases F <;> simp only [framed, levels, levelsBody] <;> omega

/-- A depth that is enough for nodes is enough for those inside the first one, one level further
in, and for the others. -/
theorem levelsAll_cons_le {n : Node} {ns : List Node} {inner depth : Nat} (hn : inner < levels n)
    (h : levelsAll (n :: ns) ≤ depth) :
    ∃ depth', depth = depth' + 1 ∧ inner ≤ depth' ∧ levelsAll ns ≤ depth' + 1 := by
  rw [levelsAll, Nat.max_le] at h
  exact ⟨depth - 1, by omega, by omega, by omega⟩

/-- The nodes behind one that the walk for yield points has been through. -/
theorem walkAll_yieldVisitor_cons {content : Block} {n m : Node} {ns ms : List Node}
    {depth : Nat} {s s' s'' : Bool}
    (hn : Walk.children (Walk.visit (yieldVisitor content) false depth) false s n =
      some ⟨s', m, none⟩)
    (hns : walkAll (yieldVisitor content) false (depth + 1) (s' || (yieldPoint? m).isSome) ns =
      some ⟨s'', ms, none⟩) :
    walkAll (yieldVisitor content) false (depth + 1) s (n :: ns) =
      some ⟨s'', yielded content m :: ms, none⟩ := by
  have hvisit : Walk.visit (yieldVisitor content) false (depth + 1) s n =
      some (s' || (yieldPoint? m).isSome, .kept (yielded content m)) := by
    simp only [Walk.visit, yieldVisitor] at hn ⊢
    rw [hn]
    rfl
  rw [walkAll] at hns ⊢
  simp only [Walk.siblings, hvisit, hns, Option.map_some]

/-- The walk for yield points puts the content at all of them, and tells whether there are any. -/
theorem walkAll_yieldVisitor (content : Block) {ns : List Node} {depth : Nat}
    (h : levelsAll ns ≤ depth) (s : Bool) :
    walkAll (yieldVisitor content) false depth s ns =
      some ⟨s || hasYieldAll ns, fillYieldsAll content ns, none⟩ := by
  induction ns using forest_induction generalizing depth s with
  | nil => simp [walkAll, Walk.siblings, fillYieldsAll]
  | leaf n ns hn ih =>
    obtain ⟨depth, rfl, -, hns⟩ := levelsAll_cons_le (levels_pos n) h
    rw [walkAll_yieldVisitor_cons (children_leaf hn _ _) (ih hns _)]
    cases n, hn using leaf_cases <;>
      simp [yieldPoint?, yielded, hasYield, fillYields, fillYieldsAll]
  | frame F inner ns ihi ih =>
    obtain ⟨depth, rfl, hinner, hns⟩ := levelsAll_cons_le (levelsAll_lt_levels_framed F inner) h
    have hchildren := children_framed (Walk.visit (yieldVisitor content) false depth) s F inner
    rw [← walkAll, ihi hinner] at hchildren
    rw [walkAll_yieldVisitor_cons hchildren (ih hns _)]
    cases F <;>
      simp [framed, yieldPoint?, yielded, hasYield, fillYields, fillYieldsAll, Bool.or_assoc]
  | block k inner ns ihi ih =>
    obtain ⟨depth, rfl, hinner, hns⟩ := levelsAll_cons_le (Nat.lt_succ_self (levelsAll inner)) h
    have hchildren : Walk.children (Walk.visit (yieldVisitor content) false depth) false s
        (.block k inner) = some ⟨s || hasYieldAll inner, .block k (fillYieldsAll content inner),
          none⟩ := by
      rw [Walk.children, ← walkAll, ihi hinner]
      rfl
    rw [walkAll_yieldVisitor_cons hchildren (ih hns _)]
    simp [yieldPoint?, yielded, fillYields, fillYieldsAll, Bool.or_assoc]

/-! ### The default place -/

/-- The node can be entered for the default place: it is a group or carries a nested sequence with
nodes, and it is no tag of plain text. -/
def canEnter (n : Node) : Bool :=
  !n.isTextOnly && (n.isGroup || n.nestedBlock.any (!·.nodes.isEmpty))

theorem canEnter_framed (F : Frame) (ns : List Node) :
    canEnter (framed F ns) = F.opens ns.isEmpty := by
  cases F <;> simp [canEnter, framed, isTextOnly, isGroup, nestedBlock, Frame.opens]

theorem canEnter_leaf {n : Node} (hn : isLeaf n) : canEnter n = false := by
  cases n, hn using leaf_cases <;> rfl

theorem canEnter_block (h : BlockHead) (ns : List Node) : canEnter (.block h ns) = false := rfl

/-- No content goes into nodes of which none can be entered. -/
theorem placeLast_eq_none {ns : List Node} (h : ∀ n ∈ ns, canEnter n = false) (content : Block) :
    placeLast content ns = none := by
  induction ns using forest_induction with
  | nil => rfl
  | leaf n ns hn ih =>
    rw [placeLast_cons, ih (List.forall_mem_of_forall_mem_cons h), enterWith_leaf hn]
    rfl
  | frame F inner ns ihi ih =>
    have hF := h _ List.mem_cons_self
    rw [canEnter_framed] at hF
    rw [placeLast_cons, ih (List.forall_mem_of_forall_mem_cons h), enterWith_framed, hF]
    rfl
  | block k inner ns ihi ih =>
    rw [placeLast_cons, ih (List.forall_mem_of_forall_mem_cons h)]
    rfl

end Node

/-- What stands around a sequence of nodes: its frame, and the nodes before and behind that. -/
structure Layer where
  before : List Node
  frame : Frame
  after : List Node

/-- The sequence with a layer around it. -/
def Layer.around (x : Layer) (ns : List Node) : List Node :=
  x.before ++ Node.framed x.frame ns :: x.after

namespace Node

/-- A sequence with layers around it, the first of them outermost. -/
def plug (xs : List Layer) (ns : List Node) : List Node := xs.foldr Layer.around ns

@[simp] theorem plug_nil (ns : List Node) : plug [] ns = ns := rfl

@[simp] theorem plug_cons (x : Layer) (xs : List Layer) (ns : List Node) :
    plug (x :: xs) ns = x.around (plug xs ns) := rfl

/-- The last nodes that can be entered, one in another, lead from a sequence through layers to a
sequence in which no node can be entered. -/
inductive LeadsTo : List Node → List Layer → List Node → Prop where
  | stop {ns : List Node} : (∀ n ∈ ns, canEnter n = false) → LeadsTo ns [] ns
  | enter {F : Frame} {inner after last : List Node} {xs : List Layer} (before : List Node) :
    canEnter (framed F inner) → (∀ n ∈ after, canEnter n = false) → LeadsTo inner xs last →
      LeadsTo (before ++ framed F inner :: after) (⟨before, F, after⟩ :: xs) last

namespace LeadsTo

variable {ns last : List Node} {xs : List Layer}

theorem plug_eq (h : LeadsTo ns xs last) : plug xs last = ns := by
  induction h with
  | stop => rfl
  | enter before _ _ _ ih => rw [plug_cons, ih, Layer.around]

/-- A node in front is passed by if it cannot be entered. -/
theorem cons (h : LeadsTo ns xs last) {n : Node} (hn : canEnter n = false) :
    ∃ xs last, LeadsTo (n :: ns) xs last := by
  cases h with
  | stop hns => exact ⟨_, _, .stop (List.forall_mem_cons.mpr ⟨hn, hns⟩)⟩
  | enter before hF hafter hinner => exact ⟨_, _, .enter (n :: before) hF hafter hinner⟩

end LeadsTo

theorem exists_leadsTo (ns : List Node) : ∃ xs last, LeadsTo ns xs last := by
  induction ns using forest_induction with
  | nil => exact ⟨[], [], .stop (List.forall_mem_nil _)⟩
  | leaf n ns hn ih =>
    obtain ⟨_, _, h⟩ := ih
    exact h.cons (canEnter_leaf hn)
  | frame F inner ns ihi ih =>
    obtain ⟨_, _, hinner⟩ := ihi
    obtain ⟨_, _, h⟩ := ih
    by_cases hF : canEnter (framed F inner)
    · cases h with
      | stop hns => exact ⟨_, _, .enter [] hF hns hinner⟩
      | enter before hG hafter h => exact ⟨_, _, .enter (framed F inner :: before) hG hafter h⟩
    · exact h.cons (by simpa using hF)
  | block k inner ns ihi ih =>
    obtain ⟨_, _, h⟩ := ih
    exact h.cons (canEnter_block k inner)

/-- Content goes into the last node that can be entered. -/
theorem placeLast_append {F : Frame} {inner after : List Node} (before : List Node)
    (hF : canEnter (framed F inner)) (hafter : ∀ n ∈ after, canEnter n = false)
    (content : Block) :
    placeLast content (before ++ framed F inner :: after) =
      some (before ++ framed F (placeDefault content inner) :: after) := by
  induction before with
  | nil =>
    rw [canEnter_framed] at hF
    rw [List.nil_append, placeLast_cons, placeLast_eq_none hafter, enterWith_framed, if_pos hF]
    rfl
  | cons n before ih =>
    rw [List.cons_append, placeLast_cons, ih]
    rfl

/-- Content at the default place is one more group at the end of the sequence that the way leads
to. -/
theorem LeadsTo.placeDefault_eq {ns last : List Node} {xs : List Layer} (h : LeadsTo ns xs last)
    (content : Block) : placeDefault content ns = plug xs (last ++ [.group content]) := by
  induction h with
  | stop hns => rw [placeDefault, placeLast_eq_none hns, Option.getD_none, plug_nil]
  | enter before hF hafter _ ih =>
    rw [placeDefault, placeLast_append before hF hafter, Option.getD_some, ih, plug_cons,
      Layer.around]

/-- The way enters no tag of plain text. -/
theorem LeadsTo.textOnly_eq_false {ns last : List Node} {xs : List Layer} (h : LeadsTo ns xs last)
    {x : Layer} (hx : x ∈ xs) : x.frame.textOnly = false := by
  induction h with
  | stop => cases hx
  | @enter F inner _ _ _ _ hF _ _ ih =>
    rcases List.mem_cons.mp hx with rfl | hx
    · rw [canEnter_framed] at hF
      cases F <;> simp_all [Frame.opens, Frame.textOnly]
    · exact ih hx

end Node

open Node

theorem Block.takeIn_some (root : Block) {c : Block} (hc : c.nodes ≠ []) :
    root.takeIn (some c) =
      if hasYieldAll root.nodes then { root with nodes := fillYieldsAll c root.nodes }
      else { root with nodes := placeDefault c root.nodes } := by
  simp [Block.takeIn, hc]

/-- Content of an include site in the included document `root`. Without content nothing changes. The
yield points of `root` are replaced by groups of the content wherever they are, as a walk behind the
children of every node does it, so that only those of the content are left. In a document without
yield points the content is one more group at the end of the sequence that the last enterable nodes
lead to, through no tag of plain text. -/
theorem takeIn_placement (root : Block) (content : Option Block) :
    ((∀ c, content = some c → c.nodes = []) → root.takeIn content = root) ∧
      ∀ c, content = some c → c.nodes ≠ [] →
        (yieldPoints root.nodes ≠ [] →
          root.takeIn content = { root with nodes := mapLeavesAll (yielded c) root.nodes } ∧
            walkAll (yieldVisitor c) false (levelsAll root.nodes) false root.nodes =
              some ⟨true, (root.takeIn content).nodes, none⟩ ∧
            yieldPoints (root.takeIn content).nodes =
              (yieldPoints root.nodes).flatMap fun _ ↦ yieldPoints c.nodes) ∧
        (yieldPoints root.nodes = [] →
          ∃ xs last, LeadsTo root.nodes xs last ∧ root.nodes = plug xs last ∧
            root.takeIn content = { root with nodes := plug xs (last ++ [.group c]) } ∧
            ∀ x ∈ xs, x.frame.textOnly = false) := by
  constructor
  · intro h
    cases content with
    | none => rfl
    | some c => simp [Block.takeIn, h c rfl]
  · rintro c rfl hc
    have htake := root.takeIn_some hc
    constructor
    · intro hpoints
      have hyield := hasYieldAll_iff.mpr hpoints
      rw [htake, if_pos hyield]
      refine ⟨?leaves, ?walk, yieldPoints_fillYieldsAll c root.nodes⟩
      case leaves => rw [fillYieldsAll_eq_mapLeavesAll]
      case walk => rw [walkAll_yieldVisitor c (Nat.le_refl _), hyield, Bool.or_true]
    · intro hpoints
      have hyield : ¬hasYieldAll root.nodes := fun h ↦ hasYieldAll_iff.mp h hpoints
      obtain ⟨xs, last, hway⟩ := exists_leadsTo root.nodes
      rw [htake, if_neg hyield, hway.placeDefault_eq]
      exact ⟨xs, last, hway, hway.plug_eq.symm, rfl, fun x hx ↦ hway.textOnly_eq_false hx⟩

/-- An included document with a yield point in a tag of plain text and another one in a block. -/
def yieldingDocument : Block :=
  ⟨[.tag ⟨"script", true, ⟨none, 1⟩⟩ ⟨[.yield ⟨none, 1⟩], ⟨none, 1⟩⟩,
    .block ⟨"b", .replace, ⟨none, 2⟩, none, none, false⟩ [.yield ⟨none, 2⟩]], ⟨none, 1⟩⟩

/-- An included document without yield points. Of its tags the last one is empty, and the one before
that is of plain text. -/
def plainDocument : Block :=
  ⟨[.tag ⟨"p", false, ⟨none, 1⟩⟩ ⟨[.text "a" ⟨none, 1⟩], ⟨none, 1⟩⟩,
    .tag ⟨"script", true, ⟨none, 2⟩⟩ ⟨[.text "b" ⟨none, 2⟩], ⟨none, 2⟩⟩,
    .tag ⟨"p", false, ⟨none, 3⟩⟩ ⟨[], ⟨none, 3⟩⟩], ⟨none, 1⟩⟩

/-- The content of an include site, with a yield point of its own. -/
def siteContent : Block := ⟨[.text "c" ⟨none, 7⟩, .yield ⟨none, 8⟩], ⟨none, 6⟩⟩

theorem takeIn_placement_siteContent :
    yieldingDocument.takeIn (some siteContent) =
        ⟨mapLeavesAll (yielded siteContent) yieldingDocument.nodes, ⟨none, 1⟩⟩ ∧
      yieldPoints yieldingDocument.nodes = [⟨none, 1⟩, ⟨none, 2⟩] ∧
      yieldPoints (yieldingDocument.takeIn (some siteContent)).nodes = [⟨none, 8⟩, ⟨none, 8⟩] ∧
      (∃ xs last, LeadsTo plainDocument.nodes xs last ∧
        plainDocument.takeIn (some siteContent) =
          ⟨plug xs (last ++ [.group siteContent]), ⟨none, 1⟩⟩) ∧
      plainDocument.takeIn (some siteContent) =
        ⟨[.tag ⟨"p", false, ⟨none, 1⟩⟩ ⟨[.text "a" ⟨none, 1⟩, .group siteContent], ⟨none, 1⟩⟩,
          .tag ⟨"script", true, ⟨none, 2⟩⟩ ⟨[.text "b" ⟨none, 2⟩], ⟨none, 2⟩⟩,
          .tag ⟨"p", false, ⟨none, 3⟩⟩ ⟨[], ⟨none, 3⟩⟩], ⟨none, 1⟩⟩ ∧
      plainDocument.takeIn none = plainDocument := by
  have hcontent : siteContent.nodes ≠ [] := by simp [siteContent]
  obtain ⟨hyielding, -⟩ := (takeIn_placement yieldingDocument (some siteContent)).2 _ rfl hcontent
  obtain ⟨-, hplain⟩ := (takeIn_placement plainDocument (some siteContent)).2 _ rfl hcontent
  obtain ⟨hleaves, -, hpoints⟩ := hyielding (by decide)
  obtain ⟨xs, last, hway, -, htake, -⟩ := hplain rfl
  have hnone := (takeIn_placement plainDocument none).1 fun c hc ↦ by cases hc
  exact ⟨hleaves, rfl, hpoints, ⟨xs, last, hway, htake⟩, rfl, hnone⟩

end Templating
