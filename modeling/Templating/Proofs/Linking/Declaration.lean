import Templating.Proofs.Linking.Ancestors
import Templating.Proofs.Node.Overriding

/-!
# Declaration of blocks

Declaring numbers the named blocks of a tree that have no number, in document order, and changes
nothing else. Numbers drawn in one declaration are pairwise different. The registry holds under
each name the numbers of the replace-mode blocks of that name.
-/

namespace Templating

namespace Registry

theorem get_register (r : Registry) (name m : String) (id : BlockId) :
    (r.register name id).get m =
      if name = m then (if id ∈ r.get name then r.get name else r.get name ++ [id])
      else r.get m := by
  simp only [register, get, Table.get?_insert]
  split <;> simp [*]

theorem mem_get_register (r : Registry) (name m : String) (id i : BlockId) :
    i ∈ (r.register name id).get m ↔ i ∈ r.get m ∨ (name = m ∧ i = id) := by
  rw [get_register]
  grind

theorem NamesHaveBlocks.register {r : Registry} (h : r.NamesHaveBlocks) (name : String)
    (id : BlockId) : (r.register name id).NamesHaveBlocks := by
  intro m ids hm
  simp only [Registry.register, Table.get?_insert] at hm
  by_cases hn : name = m
  · by_cases hi : id ∈ r.get name
    · rw [if_pos hn, if_pos hi, Option.some_inj] at hm
      exact hm ▸ List.ne_nil_of_mem hi
    · rw [if_pos hn, if_neg hi, Option.some_inj] at hm
      simp [← hm]
  · rw [if_neg hn] at hm
    exact h m ids hm

/-- Register a block that is in replace mode. -/
def enter (r : Registry) (h : BlockHead) : Registry :=
  match h.id with
  | some id => if h.mode = .replace then r.register h.name id else r
  | none => r

theorem mem_get_enter (r : Registry) (h : BlockHead) (m : String) (i : BlockId) :
    i ∈ (r.enter h).get m ↔
      i ∈ r.get m ∨ (h.name = m ∧ h.mode = .replace ∧ h.id = some i) := by
  cases hi : h.id with
  | none => simp [enter, hi]
  | some id =>
    by_cases hm : h.mode = .replace
    · simp [enter, hi, hm, mem_get_register, eq_comm]
    · simp [enter, hi, hm]

theorem parents_enter (r : Registry) (h : BlockHead) : (r.enter h).parents = r.parents := by
  unfold enter
  split
  · split <;> rfl
  · rfl

theorem NamesHaveBlocks.enter {r : Registry} (hr : r.NamesHaveBlocks) (h : BlockHead) :
    (r.enter h).NamesHaveBlocks := by
  unfold Registry.enter
  split
  · split
    · exact hr.register _ _
    · exact hr
  · exact hr

end Registry

namespace Node

/-! ### Equations -/

/-- The number of a block when `last` was the last one drawn. -/
def idFrom (last : Nat) (h : BlockHead) : Nat := h.id.getD (last + 1)

/-- The last number drawn when a block has got its number. -/
def lastAfter (last : Nat) (h : BlockHead) : Nat := if h.id.isSome then last else last + 1

/-- The head with its number. -/
def numbered (last : Nat) (h : BlockHead) : BlockHead := { h with id := some (idFrom last h) }

theorem le_lastAfter (last : Nat) (h : BlockHead) : last ≤ lastAfter last h := by
  unfold lastAfter
  split <;> omega

/-- A head with a number stays as it is; any other gets the next number. -/
theorem numbered_cases (last : Nat) (h : BlockHead) :
    (numbered last h = h ∧ ∃ i, h.id = some i) ∨
      ((numbered last h).id = some (last + 1) ∧ lastAfter last h = last + 1) := by
  obtain ⟨name, mode, position, id, parents, ignored⟩ := h
  cases id with
  | none => exact .inr ⟨rfl, rfl⟩
  | some i => exact .inl ⟨rfl, i, rfl⟩

theorem declare_framed (F : Frame) (ns : List Node) (s : BlockId × Registry) :
    declare (framed F ns) s = (framed F (declareAll ns s).1, (declareAll ns s).2) := by
  cases F <;> rfl

theorem declare_leaf {n : Node} (h : isLeaf n) (s : BlockId × Registry) :
    declare n s = (n, s) := by
  cases n, h using leaf_cases <;> rfl

theorem declare_block (h : BlockHead) (ns : List Node) (last : BlockId) (r : Registry) :
    declare (.block h ns) (last, r) =
      (.block (numbered last h) (declareAll ns (lastAfter last h, r.enter (numbered last h))).1,
        (declareAll ns (lastAfter last h, r.enter (numbered last h))).2) := by
  cases hi : h.id <;>
    simp [declare, numbered, idFrom, lastAfter, Registry.enter, hi]

@[simp] theorem declareAll_nil (s : BlockId × Registry) : declareAll [] s = ([], s) := rfl

theorem declareAll_cons (n : Node) (ns : List Node) (s : BlockId × Registry) :
    declareAll (n :: ns) s =
      ((declare n s).1 :: (declareAll ns (declare n s).2).1,
        (declareAll ns (declare n s).2).2) := rfl

/-- Declaring does not matter to a change of heads that forgets numbers. -/
theorem mapHeadsAll_declareAll {f : BlockHead → BlockHead}
    (hf : ∀ (last : Nat) (h : BlockHead), f (numbered last h) = f h) (ns : List Node)
    (s : BlockId × Registry) : mapHeadsAll f (declareAll ns s).1 = mapHeadsAll f ns := by
  unfold mapHeadsAll
  induction ns using forest_induction generalizing s with
  | nil => rfl
  | leaf n ns hn ih => simp [declareAll_cons, declare_leaf hn, ih]
  | frame F inner ns ihi ih => simp [declareAll_cons, declare_framed, ihi, ih]
  | block h inner ns ihi ih =>
    obtain ⟨last, r⟩ := s
    simp [declareAll_cons, declare_block, hf, ihi, ih]

/-- Declaring changes nothing but numbers. -/
theorem bareAll_declareAll (ns : List Node) (s : BlockId × Registry) :
    bareAll (declareAll ns s).1 = bareAll ns :=
  mapHeadsAll_declareAll (fun _ _ ↦ rfl) ns s

/-! ### Numbers -/

/-- What a declaration that draws the numbers after `last` up to `last'` makes of nodes. -/
structure Declares (last last' : Nat) (ns ns' : List Node) : Prop where
  le : last ≤ last'
  bare : bareAll ns' = bareAll ns
  /-- A block has kept its number or got a new one. -/
  block : ∀ b ∈ blocksAll ns', ∃ i : Nat, b.head.id = some i ∧
    ((∃ c ∈ blocksAll ns, c.head = b.head ∧ bareAll c.nodes = bareAll b.nodes) ∨
      (last < i ∧ i ≤ last'))
  /-- New numbers differ. -/
  distinct : (blocksAll ns').Pairwise fun b c ↦
    ∀ i : Nat, b.head.id = some i → c.head.id = some i → i ≤ last

/-- All numbers in a tree were drawn. -/
def NumberedUpTo (last : Nat) (ns : List Node) : Prop :=
  ∀ b ∈ blocksAll ns, ∀ i : Nat, b.head.id = some i → i ≤ last

theorem NumberedUpTo.mono {last last' : Nat} {ns : List Node} (h : NumberedUpTo last ns)
    (hle : last ≤ last') : NumberedUpTo last' ns :=
  fun b hb i hi ↦ Nat.le_trans (h b hb i hi) hle

namespace Declares

theorem leaf {n : Node} (h : isLeaf n) (last : Nat) : Declares last last [n] [n] :=
  ⟨Nat.le_refl _, rfl, by simp [blocks_leaf h], by simp [blocks_leaf h]⟩

theorem framed {last last' : Nat} {ns ns' : List Node} (h : Declares last last' ns ns')
    (F : Frame) : Declares last last' [framed F ns] [framed F ns'] where
  le := h.le
  bare := by simp [h.bare]
  block := by simpa using h.block
  distinct := by simpa using h.distinct

/-- A number in the result was there before or is new. -/
theorem le_or_lt {last last' bound : Nat} {ns ns' : List Node} (h : Declares last last' ns ns')
    (old : NumberedUpTo bound ns) {b : NamedBlock} (hb : b ∈ blocksAll ns') {i : Nat}
    (hi : b.head.id = some i) : i ≤ bound ∨ (last < i ∧ i ≤ last') := by
  obtain ⟨j, hj, ⟨c, hc, he, -⟩ | hr⟩ := h.block b hb
  · exact .inl (old c hc i (he ▸ hi))
  · rw [hi] at hj
    injection hj with hj
    exact .inr (hj ▸ hr)

theorem numberedBlock {last last' : Nat} {h : BlockHead} {ns ns' : List Node}
    (hd : Declares (lastAfter last h) last' ns ns') (oldh : ∀ i : Nat, h.id = some i → i ≤ last)
    (old : NumberedUpTo last ns) :
    Declares last last' [.block h ns] [.block (numbered last h) ns'] := by
  have hle := hd.le
  have hmid := le_lastAfter last h
  refine ⟨by omega, by simp [hd.bare, numbered, BlockHead.bare], ?_, ?_⟩
  · intro b hb
    simp only [blocksAll_cons, blocks_block, blocksAll_nil, List.append_nil,
      List.mem_cons] at hb ⊢
    rcases hb with rfl | hb
    · rcases numbered_cases last h with ⟨hn, i, hi⟩ | ⟨hn, ha⟩
      · exact ⟨i, hn ▸ hi, .inl ⟨⟨h, ns⟩, .inl rfl, hn.symm, hd.bare.symm⟩⟩
      · exact ⟨last + 1, hn, .inr (by omega)⟩
    · obtain ⟨i, hi, ⟨c, hc, he⟩ | hr⟩ := hd.block b hb
      · exact ⟨i, hi, .inl ⟨c, .inr hc, he⟩⟩
      · exact ⟨i, hi, .inr (by omega)⟩
  · simp only [blocksAll_cons, blocks_block, blocksAll_nil, List.append_nil,
      List.pairwise_cons]
    constructor
    · intro c hc i hi hci
      rcases numbered_cases last h with ⟨hn, -⟩ | ⟨hn, ha⟩
      · exact oldh i (hn ▸ hi)
      · have := hd.le_or_lt old hc hci
        rw [hn, Option.some_inj] at hi
        omega
    · refine hd.distinct.imp_of_mem fun {b c} hb _ hbc i hbi hci ↦ ?_
      have := hbc i hbi hci
      have := hd.le_or_lt old hb hbi
      omega

theorem append {last mid last' : Nat} {ns ns' ms ms' : List Node}
    (hn : Declares last mid ns ns') (hm : Declares mid last' ms ms')
    (oldn : NumberedUpTo last ns) (oldm : NumberedUpTo last ms) :
    Declares last last' (ns ++ ms) (ns' ++ ms') where
  le := Nat.le_trans hn.le hm.le
  bare := by simp [hn.bare, hm.bare]
  block := by
    intro b hb
    have hle := hn.le
    have hle' := hm.le
    rw [blocksAll_append, List.mem_append] at hb
    rcases hb with hb | hb
    · obtain ⟨i, hi, ⟨c, hc, he⟩ | hr⟩ := hn.block b hb
      · exact ⟨i, hi, .inl ⟨c, by simp [hc], he⟩⟩
      · exact ⟨i, hi, .inr (by omega)⟩
    · obtain ⟨i, hi, ⟨c, hc, he⟩ | hr⟩ := hm.block b hb
      · exact ⟨i, hi, .inl ⟨c, by simp [hc], he⟩⟩
      · exact ⟨i, hi, .inr (by omega)⟩
  distinct := by
    rw [blocksAll_append, List.pairwise_append]
    refine ⟨hn.distinct, hm.distinct.imp_of_mem ?_, ?_⟩
    · intro b c hb _ h i hbi hci
      have hmid := h i hbi hci
      rcases hm.le_or_lt oldm hb hbi with hi | hi <;> omega
    · intro b hb c hc i hbi hci
      have hin := hn.le_or_lt oldn hb hbi
      have him := hm.le_or_lt oldm hc hci
      omega

/-- A new number belongs to one block. -/
theorem eq_of_lt {last last' : Nat} {ns ns' : List Node} (h : Declares last last' ns ns')
    {b c : NamedBlock} (hb : b ∈ blocksAll ns') (hc : c ∈ blocksAll ns') {i : Nat}
    (hbi : b.head.id = some i) (hci : c.head.id = some i) (hi : last < i) : b = c := by
  have hall := List.Pairwise.forall_of_forall_of_flip
    (R := fun b c ↦ b = c ∨ ∀ i : Nat, b.head.id = some i → c.head.id = some i → i ≤ last)
    (fun _ _ ↦ .inl rfl) (h.distinct.imp .inr)
    (h.distinct.imp fun hbc ↦ .inr fun i hci hbi ↦ hbc i hbi hci)
  rcases hall hb hc with he | hle
  · exact he
  · exact absurd (hle i hbi hci) (Nat.not_le.mpr hi)

end Declares

/-- Declaring numbers the blocks that have no number, and does nothing else to the nodes. -/
theorem declareAll_declares {ns : List Node} {last : Nat} (r : Registry)
    (old : NumberedUpTo last ns) :
    Declares last (declareAll ns (last, r)).2.1 ns (declareAll ns (last, r)).1 := by
  induction ns using forest_induction generalizing last r with
  | nil => exact ⟨Nat.le_refl _, rfl, by simp, by simp⟩
  | leaf n ns hn ih =>
    rw [NumberedUpTo, forall_mem_blocksAll_leaf hn] at old
    rw [declareAll_cons, declare_leaf hn]
    exact (Declares.leaf hn last).append (ih r old) (by simp [NumberedUpTo, blocks_leaf hn]) old
  | frame F inner ns ihi ih =>
    rw [NumberedUpTo, forall_mem_blocksAll_framed] at old
    rw [declareAll_cons, declare_framed]
    have hi := (ihi r old.1).framed F
    exact hi.append (ih _ (NumberedUpTo.mono old.2 hi.le)) (by simpa [NumberedUpTo] using old.1)
      old.2
  | block h inner ns ihi ih =>
    rw [NumberedUpTo, forall_mem_blocksAll_block] at old
    rw [declareAll_cons, declare_block]
    have hi := (ihi (r.enter (numbered last h))
      (NumberedUpTo.mono old.2.1 (le_lastAfter last h))).numberedBlock old.1 old.2.1
    exact hi.append (ih _ (NumberedUpTo.mono old.2.2 hi.le))
      (by simpa [NumberedUpTo] using ⟨old.1, old.2.1⟩) old.2.2

/-! ### Registry -/

/-- The registry gets the declared blocks in document order. -/
theorem declareAll_registry (ns : List Node) (last : Nat) (r : Registry) :
    (declareAll ns (last, r)).2.2 =
      (blocksAll (declareAll ns (last, r)).1).foldl (fun r b ↦ r.enter b.head) r := by
  induction ns using forest_induction generalizing last r with
  | nil => rfl
  | leaf n ns hn ih => simp [declareAll_cons, declare_leaf hn, blocks_leaf hn, ih]
  | frame F inner ns ihi ih => simp [declareAll_cons, declare_framed, ← ihi, ih]
  | block h inner ns ihi ih => simp [declareAll_cons, declare_block, ← ihi, ih]

theorem mem_get_foldl_enter (bs : List NamedBlock) (r : Registry) (m : String) (i : Nat) :
    i ∈ (bs.foldl (fun r b ↦ r.enter b.head) r).get m ↔
      i ∈ r.get m ∨ ∃ b ∈ bs, b.head.name = m ∧ b.head.mode = .replace ∧ b.head.id = some i := by
  induction bs generalizing r with
  | nil => simp
  | cons b bs ih =>
    rw [List.foldl_cons, ih, Registry.mem_get_enter]
    simp only [List.mem_cons, or_and_right, exists_or, exists_eq_left, or_assoc]

theorem parents_foldl_enter (bs : List NamedBlock) (r : Registry) :
    (bs.foldl (fun r b ↦ r.enter b.head) r).parents = r.parents := by
  induction bs generalizing r with
  | nil => rfl
  | cons b bs ih => rw [List.foldl_cons, ih, Registry.parents_enter]

theorem namesHaveBlocks_foldl_enter (bs : List NamedBlock) {r : Registry}
    (h : r.NamesHaveBlocks) : (bs.foldl (fun r b ↦ r.enter b.head) r).NamesHaveBlocks := by
  induction bs generalizing r with
  | nil => exact h
  | cons b bs ih => exact ih (h.enter b.head)

/-- What the declaration of a whole document puts into its registry. -/
structure Registers (ns : List Node) (r : Registry) : Prop where
  mem_get : ∀ m (i : Nat), i ∈ r.get m ↔
    ∃ b ∈ blocksAll ns, b.head.name = m ∧ b.head.mode = .replace ∧ b.head.id = some i
  parents : r.parents = .empty
  namesHaveBlocks : r.NamesHaveBlocks

theorem declareAll_registers (ns : List Node) (last : Nat) :
    Registers (declareAll ns (last, .empty)).1 (declareAll ns (last, .empty)).2.2 := by
  rw [declareAll_registry]
  refine ⟨fun m i ↦ ?_, parents_foldl_enter _ _, namesHaveBlocks_foldl_enter _ ?_⟩
  · rw [mem_get_foldl_enter]
    simp [Registry.empty, Registry.get]
  · intro m ids hm
    simp [Registry.empty] at hm

end Node
end Templating
