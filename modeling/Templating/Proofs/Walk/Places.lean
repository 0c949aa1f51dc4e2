import Templating.Proofs.Node.Documents
import Templating.Walk

/-!
# Places in a tree

From a node the branches lead to the document loaded for it, if documents belong to the tree, and
to the nodes that it carries. A place is the list of branches that lead to it from the root
(`Node.at?`). For a walk, every node has a document and a sequence inside, either of which may be
missing (`Walk.children_eq`).
-/

namespace Templating

/-- The way from a node to a node right inside it. -/
inductive Branch where
  /-- To the document loaded for the node. -/
  | document
  /-- To the nodes that the node carries, counted from 0. -/
  | carried (i : Nat)
  deriving DecidableEq, Repr

/-- The order of branches in the document: the loaded document first. -/
inductive Branch.Lt : Branch → Branch → Prop
  | document {i : Nat} : Lt .document (.carried i)
  | carried {i j : Nat} (h : i < j) : Lt (.carried i) (.carried j)

theorem Branch.Lt.asymm {b b' : Branch} (h : b.Lt b') : ¬ b'.Lt b := by
  cases h with
  | document => nofun
  | carried h =>
    rintro ⟨⟩
    omega

theorem Branch.Lt.ne {b b' : Branch} (h : b.Lt b') : b ≠ b' := by
  rintro rfl
  exact h.asymm h

namespace Node

/-- The nodes that a node carries. -/
def carried : Node → List Node
  | .group b => b.nodes
  | .block _ ns => ns
  | .includes _ _ (some b) _ => b.nodes
  | .mixin _ (some b) => b.nodes
  | .filter _ b => b.nodes
  | .tag _ b => b.nodes
  | _ => []

/-- The node with others in place of the nodes that it carries. -/
def withCarried (ns : List Node) : Node → Node
  | .group b => .group { b with nodes := ns }
  | .block h _ => .block h ns
  | .includes f d (some b) p => .includes f d (some { b with nodes := ns }) p
  | .mixin h (some b) => .mixin h (some { b with nodes := ns })
  | .filter u b => .filter u { b with nodes := ns }
  | .tag h b => .tag h { b with nodes := ns }
  | n => n

/-- The node behind a branch. `follow` tells whether loaded documents belong to the tree. -/
def child? (follow : Bool) (n : Node) : Branch → Option Node
  | .document => if follow then n.document? else none
  | .carried i => n.carried[i]?

/-- The node at a place. -/
def at? (follow : Bool) : Node → List Branch → Option Node
  | n, [] => some n
  | n, b :: p => (n.child? follow b).bind fun m ↦ m.at? follow p

/-- The node at a place among nodes that hang on branches. -/
def under? (follow : Bool) (forest : Branch → Option Node) : List Branch → Option Node
  | [] => none
  | b :: p => (forest b).bind fun m ↦ m.at? follow p

theorem under?_eq_some_iff {follow : Bool} {forest : Branch → Option Node} {p : List Branch}
    {n : Node} :
    under? follow forest p = some n ↔
      ∃ b q m, p = b :: q ∧ forest b = some m ∧ m.at? follow q = some n := by
  cases p with
  | nil => simp [under?]
  | cons b q =>
    simp only [under?, Option.bind_eq_some_iff]
    constructor
    · rintro ⟨m, hm, h⟩
      exact ⟨b, q, m, rfl, hm, h⟩
    · rintro ⟨b, q, m, ⟨⟩, hm, h⟩
      exact ⟨m, hm, h⟩

/-- A tree on a branch. -/
def hung (b : Branch) (n : Node) : Branch → Option Node := fun b' ↦ if b' = b then some n else none

theorem under?_hung_iff {follow : Bool} {b : Branch} {n m : Node} {p : List Branch} :
    under? follow (hung b n) p = some m ↔ ∃ q, p = b :: q ∧ n.at? follow q = some m := by
  simp only [under?_eq_some_iff, hung, Option.ite_none_right_eq_some, Option.some.injEq]
  constructor
  · rintro ⟨_, q, _, rfl, ⟨rfl, rfl⟩, h⟩
    exact ⟨q, rfl, h⟩
  · rintro ⟨q, rfl, h⟩
    exact ⟨b, q, n, rfl, ⟨rfl, rfl⟩, h⟩

/-- Trees on branches, together with others. -/
def beside (forest forest' : Branch → Option Node) : Branch → Option Node :=
  fun b ↦ (forest b).or (forest' b)

/-- All branches with trees come before those of the others. -/
def Apart (forest forest' : Branch → Option Node) : Prop :=
  ∀ b b' n m, forest b = some n → forest' b' = some m → b.Lt b'

theorem under?_beside_iff {follow : Bool} {forest forest' : Branch → Option Node}
    (h : Apart forest forest') {p : List Branch} {n : Node} :
    under? follow (beside forest forest') p = some n ↔
      under? follow forest p = some n ∨ under? follow forest' p = some n := by
  simp only [under?_eq_some_iff, beside, Option.or_eq_some_iff]
  constructor
  · rintro ⟨b, q, m, rfl, hm | ⟨-, hm⟩, hn⟩
    · exact .inl ⟨b, q, m, rfl, hm, hn⟩
    · exact .inr ⟨b, q, m, rfl, hm, hn⟩
  · rintro (⟨b, q, m, rfl, hm, hn⟩ | ⟨b, q, m, rfl, hm, hn⟩)
    · exact ⟨b, q, m, rfl, .inl hm, hn⟩
    · refine ⟨b, q, m, rfl, .inr ⟨?_, hm⟩, hn⟩
      exact Option.eq_none_iff_forall_ne_some.mpr fun m' hm' ↦ (h b b m' m hm' hm).ne rfl

/-- No place among some trees is around a place among others, or the other way round. -/
theorem Apart.not_prefix {follow : Bool} {forest forest' : Branch → Option Node}
    (h : Apart forest forest') {p q : List Branch} {n m : Node}
    (hp : under? follow forest p = some n) (hq : under? follow forest' q = some m) :
    ¬ p <+: q ∧ ¬ q <+: p := by
  obtain ⟨b, p, n, rfl, hn, -⟩ := under?_eq_some_iff.mp hp
  obtain ⟨b', q, m, rfl, hm, -⟩ := under?_eq_some_iff.mp hq
  have hne : b ≠ b' := (h b b' n m hn hm).ne
  exact ⟨fun h ↦ hne (List.cons_prefix_cons.mp h).1,
    fun h ↦ hne (List.cons_prefix_cons.mp h).1.symm⟩

/-- The loaded document on its branch, if it is there. -/
def ofDocument (d : Option Node) : Branch → Option Node
  | .document => d
  | .carried _ => none

/-- Nodes next to each other on their branches, the first of them numbered `k`. -/
def row (k : Nat) (ns : List Node) : Branch → Option Node
  | .document => none
  | .carried i => if k ≤ i then ns[i - k]? else none

theorem row_cons (k : Nat) (n : Node) (ns : List Node) :
    row k (n :: ns) = beside (hung (.carried k) n) (row (k + 1) ns) := by
  funext b
  rcases b with _ | i
  · rfl
  · simp only [row, beside, hung, Branch.carried.injEq]
    rcases Nat.lt_trichotomy i k with h | rfl | h
    · rw [if_neg (by omega), if_neg (by omega), if_neg (by omega)]
      rfl
    · simp
    · obtain ⟨j, rfl⟩ := Nat.exists_eq_add_of_lt h
      rw [if_pos (by omega), if_neg (by omega), if_pos (by omega),
        show k + j + 1 - k = j + 1 by omega, show k + j + 1 - (k + 1) = j by omega]
      rfl

theorem apart_row (k : Nat) (n : Node) (ns : List Node) :
    Apart (hung (.carried k) n) (row (k + 1) ns) := by
  rintro b (_ | i) n' m hb hm
  · cases hm
  · simp only [hung, Option.ite_none_right_eq_some] at hb
    simp only [row, Option.ite_none_right_eq_some] at hm
    rw [hb.1]
    exact .carried (by omega)

/-- Inside a node its loaded document comes before the nodes that it carries. -/
theorem child?_eq (follow : Bool) (n : Node) :
    n.child? follow = beside (ofDocument (n.child? follow .document)) (row 0 n.carried) := by
  funext b
  rcases b with _ | i
  · simp [beside, ofDocument, row]
  · simp [beside, ofDocument, row, child?]

theorem apart_ofDocument (d : Option Node) (ns : List Node) :
    Apart (ofDocument d) (row 0 ns) := by
  rintro (_ | i) (_ | j) n m hn hm
  · cases hm
  · exact .document
  · cases hn
  · cases hn

theorem under?_ne_nil {follow : Bool} {forest : Branch → Option Node} {p : List Branch} {n : Node}
    (h : under? follow forest p = some n) : p ≠ [] := by
  rintro rfl
  cases h

/-- The places inside a node are places of the tree. -/
theorem at?_of_under? {follow : Bool} {n m : Node} {p : List Branch}
    (h : under? follow (n.child? follow) p = some m) : n.at? follow p = some m := by
  cases p with
  | nil => cases h
  | cons b p => exact h

theorem carried_lt_levels (n : Node) : levelsAll n.carried < n.levels := by
  cases n with
  | includes f d b p => cases b <;> simp only [carried, levels, levelsAll, levelsBody] <;> omega
  | mixin h b => cases b <;> simp only [carried, levels, levelsAll, levelsBody] <;> omega
  | _ => simp [carried, levels, levelsAll]

theorem document_lt_levels (n : Node) : levelsDocument n.document? < n.levels := by
  cases n <;> simp only [document?, levels, levelsDocument] <;> omega

theorem levels_le_levelsAll {m : Node} {ns : List Node} (h : m ∈ ns) :
    m.levels ≤ levelsAll ns := by
  induction ns with
  | nil => cases h
  | cons n ns ih =>
    rw [levelsAll]
    rcases List.mem_cons.mp h with rfl | h
    · exact Nat.le_max_left _ _
    · exact Nat.le_trans (ih h) (Nat.le_max_right _ _)

theorem levels_lt_of_mem_carried {n m : Node} (h : m ∈ n.carried) : m.levels < n.levels :=
  Nat.lt_of_le_of_lt (levels_le_levelsAll h) (carried_lt_levels n)

theorem levels_lt_of_document {n d : Node} (h : n.document? = some d) : d.levels < n.levels := by
  have hlt := document_lt_levels n
  rwa [h] at hlt

end Node

namespace Walk

open Node

variable {σ ε : Type}

/-- A walk through the inside of a node goes through its document, and then through the nodes that
it carries. -/
theorem children_eq (one : σ → Node → Option (σ × Fate ε)) (follow : Bool) (s : σ) (n : Node) :
    children one follow s n =
      (document one follow s n.document?).bind fun t ↦
        match t.stopped with
        | some reason => some ⟨t.state, n.setDocument t.left, some reason⟩
        | none => (siblings one t.state n.carried).map fun u ↦
          ⟨u.state, (n.setDocument t.left).withCarried u.left, u.stopped⟩ := by
  cases n with
  | includes f d b p =>
    simp only [children, document?]
    rcases document one follow s d with _ | ⟨s, d, _ | reason⟩
    · rfl
    · cases b with
      | none => rfl
      | some b => simp [body, carried, setDocument, withCarried, Option.map_map, Function.comp_def]
    · rfl
  | inherits f d p =>
    simp only [children, document?]
    rcases document one follow s d with _ | ⟨s, d, _ | reason⟩ <;> rfl
  | includesRaw f d us p =>
    simp only [children, document?]
    rcases document one follow s d with _ | ⟨s, d, _ | reason⟩ <;> rfl
  | mixin h b =>
    cases b with
    | none => rfl
    | some b => simp [children, document, document?, body, carried, setDocument, withCarried,
        Option.map_map, Function.comp_def]
  | _ => rfl

end Walk

end Templating
