import Templating.Proofs.Linking.Ancestors
import Templating.Proofs.Node.Overriding

/-!
# Merging of documents

What a merge does, told apart: the child gets marks and nothing else; its registry gets the
lineage of those of its blocks that lie in no block of the same name; and these blocks override
their targets in the parent one after another, inner ones before outer ones.
-/

namespace Templating

namespace Node

mutual

/-- The blocks inside a node that lie in no block of the same name, nor in one of the names
`around`. -/
def outermost (around : List String) : Node → List NamedBlock
  | .block h ns =>
    if h.name ∈ around then outermostAll around ns
    else outermostAll (h.name :: around) ns ++ [⟨h, ns⟩]
  | .group ⟨ns, _⟩ => outermostAll around ns
  | .includes _ _ (some ⟨ns, _⟩) _ => outermostAll around ns
  | .mixin _ (some ⟨ns, _⟩) => outermostAll around ns
  | .filter _ ⟨ns, _⟩ => outermostAll around ns
  | .tag _ ⟨ns, _⟩ => outermostAll around ns
  | _ => []
  termination_by structural n => n

/-- The blocks inside nodes that lie in no block of the same name, inner ones before outer
ones. -/
def outermostAll (around : List String) : List Node → List NamedBlock
  | [] => []
  | n :: ns => outermost around n ++ outermostAll around ns
  termination_by structural ns => ns

end

theorem outermost_framed (around : List String) (F : Frame) (ns : List Node) :
    outermost around (framed F ns) = outermostAll around ns := by
  cases F <;> rfl

theorem outermost_leaf {n : Node} (h : isLeaf n) (around : List String) :
    outermost around n = [] := by
  cases n, h using leaf_cases <;> rfl

/-- Outermost blocks are blocks. -/
theorem mem_blocksAll_of_mem_outermostAll {around : List String} {ns : List Node}
    {b : NamedBlock} (hb : b ∈ outermostAll around ns) : b ∈ blocksAll ns := by
  induction ns using forest_induction generalizing around with
  | nil => cases hb
  | leaf n ns hn ih =>
    simp only [outermostAll, outermost_leaf hn, List.nil_append] at hb
    simp [ih hb]
  | frame F inner ns ihi ih =>
    simp only [outermostAll, outermost_framed, List.mem_append] at hb
    rcases hb with hb | hb
    · simp [ihi hb]
    · simp [ih hb]
  | block h inner ns ihi ih =>
    simp only [outermostAll, outermost, List.mem_append] at hb
    rcases hb with hb | hb
    · split at hb
      · simp [ihi hb]
      · rcases List.mem_append.mp hb with hb | hb
        · simp [ihi hb]
        · simp [List.mem_singleton.mp hb]
    · simp [ih hb]

end Node

open Node

/-! ### Equations -/

/-- The head with the targets of its block. -/
def Registry.mark (r : Registry) (h : BlockHead) : BlockHead :=
  if r.targets h.name = [] then h else { h with parents := some (r.targets h.name) }

/-- The lineage with the targets of a block. -/
def Registry.trace (r : Registry) (h : BlockHead) (lineage : Registry) : Registry :=
  match h.id with
  | some id => if r.targets h.name = [] then lineage else lineage.record id (r.targets h.name)
  | none => lineage

/-- A parent with the targets of a block overridden. -/
def Registry.apply (r : Registry) (parent : List Node) (b : NamedBlock) : List Node :=
  amendAll (r.targets b.head.name) b.head.mode b.nodes parent

theorem mergeAll_cons (r : Registry) (around : List String) (n : Node) (ns : List Node)
    (m : Merging) :
    mergeAll r around (n :: ns) m =
      ((mergeNode r around n m).1 :: (mergeAll r around ns (mergeNode r around n m).2).1,
        (mergeAll r around ns (mergeNode r around n m).2).2) := rfl

theorem mergeNode_framed (r : Registry) (around : List String) (F : Frame) (ns : List Node)
    (m : Merging) :
    mergeNode r around (framed F ns) m =
      (framed F (mergeAll r around ns m).1, (mergeAll r around ns m).2) := by
  cases F <;> rfl

theorem mergeNode_leaf {n : Node} (h : isLeaf n) (r : Registry) (around : List String)
    (m : Merging) : mergeNode r around n m = (n, m) := by
  cases n, h using leaf_cases <;> rfl

theorem mergeNode_block_of_mem {around : List String} {h : BlockHead} (hn : h.name ∈ around)
    (r : Registry) (ns : List Node) (m : Merging) :
    mergeNode r around (.block h ns) m =
      (.block { h with ignored := true } (mergeAll r around ns m).1,
        (mergeAll r around ns m).2) := by
  simp [mergeNode, hn]

theorem mergeNode_block_of_not_mem {around : List String} {h : BlockHead}
    (hn : h.name ∉ around) (r : Registry) (ns : List Node) (m : Merging) :
    mergeNode r around (.block h ns) m =
      let m' := mergeAll r (h.name :: around) ns ⟨m.parent, r.trace h m.lineage⟩
      (.block (r.mark h) m'.1, ⟨r.apply m'.2.parent ⟨h, m'.1⟩, m'.2.lineage⟩) := by
  unfold Registry.mark Registry.trace Registry.apply Registry.targets
  cases ht : r.flatten (r.get h.name) with
  | nil => cases h.id <;> simp [mergeNode, hn, ht, amendAll_without_targets]
  | cons t ts => cases hi : h.id <;> simp [mergeNode, hn, ht, hi]

/-! ### The child -/

theorem name_mark (r : Registry) (h : BlockHead) : (r.mark h).name = h.name := by
  unfold Registry.mark
  split <;> rfl

theorem mode_mark (r : Registry) (h : BlockHead) : (r.mark h).mode = h.mode := by
  unfold Registry.mark
  split <;> rfl

theorem unmarked_mark (r : Registry) (h : BlockHead) : (r.mark h).unmarked = h.unmarked := by
  unfold Registry.mark
  split <;> rfl

theorem unmarked_ignored (h : BlockHead) :
    { h with ignored := true }.unmarked = h.unmarked := rfl

/-- A merge only marks the child. -/
theorem unmarked_mergeAll (r : Registry) (around : List String) (ns : List Node) (m : Merging) :
    mapHeadsAll BlockHead.unmarked (mergeAll r around ns m).1 =
      mapHeadsAll BlockHead.unmarked ns := by
  unfold mapHeadsAll
  induction ns using forest_induction generalizing around m with
  | nil => rfl
  | leaf n ns hn ih => simp [mergeAll_cons, mergeNode_leaf hn, ih]
  | frame F inner ns ihi ih => simp [mergeAll_cons, mergeNode_framed, ihi, ih]
  | block h inner ns ihi ih =>
    by_cases hn : h.name ∈ around
    · simp [mergeAll_cons, mergeNode_block_of_mem hn, ihi, ih, unmarked_ignored]
    · simp [mergeAll_cons, mergeNode_block_of_not_mem hn, ihi, ih, unmarked_mark]

theorem bareAll_mergeAll_fst (r : Registry) (child : List Node) (m : Merging) :
    bareAll (mergeAll r [] child m).1 = bareAll child :=
  mapHeadsAll_eq_of_comp (g := BlockHead.bare) (unmarked_mergeAll r [] child m) (fun _ _ ↦ rfl)
    fun _ _ ↦ rfl

/-! ### The parent -/

/-- The parent is overridden by the outermost blocks of the child, as they stand after the
merge. -/
theorem parent_mergeAll (r : Registry) (around : List String) (ns : List Node) (m : Merging) :
    (mergeAll r around ns m).2.parent =
      (outermostAll around (mergeAll r around ns m).1).foldl r.apply m.parent := by
  induction ns using forest_induction generalizing around m with
  | nil => rfl
  | leaf n ns hn ih =>
    simp [mergeAll_cons, mergeNode_leaf hn, outermostAll, outermost_leaf hn, ih]
  | frame F inner ns ihi ih =>
    simp [mergeAll_cons, mergeNode_framed, outermostAll, outermost_framed, ← ihi, ih]
  | block h inner ns ihi ih =>
    by_cases hn : h.name ∈ around
    · simp [mergeAll_cons, mergeNode_block_of_mem hn, outermostAll, outermost, hn, ← ihi, ih]
    · have hi := ihi (h.name :: around) ⟨m.parent, r.trace h m.lineage⟩
      simp [mergeAll_cons, mergeNode_block_of_not_mem hn, outermostAll, outermost, name_mark,
        mode_mark, hn, hi, ih, Registry.apply]

/-! ### The lineage -/

theorem blocks_trace (r : Registry) (h : BlockHead) (lineage : Registry) :
    (r.trace h lineage).blocks = lineage.blocks := by
  unfold Registry.trace
  split
  · split <;> rfl
  · rfl

theorem parentsOf?_trace (r : Registry) (h : BlockHead) (lineage : Registry) (i : BlockId) :
    (r.trace h lineage).parentsOf? i =
      if h.id = some i ∧ r.targets h.name ≠ [] then some (r.targets h.name)
      else lineage.parentsOf? i := by
  cases hi : h.id with
  | none => simp [Registry.trace, hi]
  | some id =>
    by_cases ht : r.targets h.name = []
    · simp [Registry.trace, hi, ht]
    · simp [Registry.trace, hi, ht, Registry.record, Registry.parentsOf?]

/-- The names in the child's registry stay. -/
theorem blocks_lineage_mergeAll (r : Registry) (around : List String) (ns : List Node)
    (m : Merging) : (mergeAll r around ns m).2.lineage.blocks = m.lineage.blocks := by
  induction ns using forest_induction generalizing around m with
  | nil => rfl
  | leaf n ns hn ih => simp [mergeAll_cons, mergeNode_leaf hn, ih]
  | frame F inner ns ihi ih => simp [mergeAll_cons, mergeNode_framed, ihi, ih]
  | block h inner ns ihi ih =>
    by_cases hn : h.name ∈ around
    · simp [mergeAll_cons, mergeNode_block_of_mem hn, ihi, ih]
    · simp [mergeAll_cons, mergeNode_block_of_not_mem hn, ihi, ih, blocks_trace]

/-- A lineage that is there after a merge was there before, or consists of the targets of an
outermost block that has some. -/
theorem parentsOf?_mergeAll {r : Registry} {around : List String} {ns : List Node} {m : Merging}
    {i : BlockId} {ts : List BlockId}
    (h : (mergeAll r around ns m).2.lineage.parentsOf? i = some ts) :
    m.lineage.parentsOf? i = some ts ∨
      ∃ b ∈ outermostAll around ns, b.head.id = some i ∧ r.targets b.head.name ≠ [] ∧
        ts = r.targets b.head.name := by
  induction ns using forest_induction generalizing around m with
  | nil => exact .inl h
  | leaf n ns hn ih =>
    simp only [mergeAll_cons, mergeNode_leaf hn] at h
    simpa [outermostAll, outermost_leaf hn] using ih h
  | frame F inner ns ihi ih =>
    simp only [mergeAll_cons, mergeNode_framed] at h
    simp only [outermostAll, outermost_framed, List.mem_append]
    rcases ih h with h | ⟨b, hb, he⟩
    · rcases ihi h with h | ⟨b, hb, he⟩
      · exact .inl h
      · exact .inr ⟨b, .inl hb, he⟩
    · exact .inr ⟨b, .inr hb, he⟩
  | block k inner ns ihi ih =>
    by_cases hn : k.name ∈ around
    · simp only [mergeAll_cons, mergeNode_block_of_mem hn] at h
      simp only [outermostAll, outermost, if_pos hn, List.mem_append]
      rcases ih h with h | ⟨b, hb, he⟩
      · rcases ihi h with h | ⟨b, hb, he⟩
        · exact .inl h
        · exact .inr ⟨b, .inl hb, he⟩
      · exact .inr ⟨b, .inr hb, he⟩
    · simp only [mergeAll_cons, mergeNode_block_of_not_mem hn] at h
      simp only [outermostAll, outermost, if_neg hn, List.mem_append, List.mem_singleton]
      rcases ih h with h | ⟨b, hb, he⟩
      · rcases ihi h with h | ⟨b, hb, he⟩
        · rw [parentsOf?_trace] at h
          split at h
          · next hk => exact .inr ⟨⟨k, inner⟩, .inl (.inr rfl), hk.1, hk.2, by simpa using h.symm⟩
          · exact .inl h
        · exact .inr ⟨b, .inl (.inl hb), he⟩
      · exact .inr ⟨b, .inr hb, he⟩

/-- An outermost block with targets has a lineage after the merge. -/
theorem isSome_parentsOf?_mergeAll {r : Registry} {around : List String} {ns : List Node}
    {m : Merging} {i : BlockId}
    (h : (m.lineage.parentsOf? i).isSome ∨
      ∃ b ∈ outermostAll around ns, b.head.id = some i ∧ r.targets b.head.name ≠ []) :
    ((mergeAll r around ns m).2.lineage.parentsOf? i).isSome := by
  induction ns using forest_induction generalizing around m with
  | nil => simpa [outermostAll, mergeAll] using h
  | leaf n ns hn ih =>
    simp only [mergeAll_cons, mergeNode_leaf hn]
    exact ih (by simpa [outermostAll, outermost_leaf hn] using h)
  | frame F inner ns ihi ih =>
    simp only [mergeAll_cons, mergeNode_framed]
    simp only [outermostAll, outermost_framed, List.mem_append] at h
    grind
  | block k inner ns ihi ih =>
    by_cases hn : k.name ∈ around
    · simp only [mergeAll_cons, mergeNode_block_of_mem hn]
      simp only [outermostAll, outermost, if_pos hn, List.mem_append] at h
      grind
    · simp only [mergeAll_cons, mergeNode_block_of_not_mem hn]
      simp only [outermostAll, outermost, if_neg hn, List.mem_append, List.mem_singleton] at h
      have htrace := parentsOf?_trace r k m.lineage i
      grind

end Templating
