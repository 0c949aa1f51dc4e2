import Mathlib.Data.List.Nodup
import Templating.Proofs.Linking.Identity
import Templating.Proofs.Linking.References

/-!
# Links of linked documents

A linked document is a fixed point of linking: it refers to no file, so that there is nothing to
expand, and all its blocks have numbers, so that there is nothing to number
(`Linked.link_root`). What linking does to a document without references is to number its blocks
from 1 on, in document order, and to register those in replace mode under their names
(`Node.Standalone.link_eq`).
-/

namespace Templating

open Node

/-- The head without its number. -/
def BlockHead.unnumbered (h : BlockHead) : BlockHead := { h with id := none }

/-- The block is registered under the name. -/
def BlockHead.isNamed (h : BlockHead) (name : String) : Bool :=
  h.name = name && h.mode = .replace

namespace Node

/-! ### Declaring numbered blocks -/

/-- Where all blocks have numbers, declaring leaves the nodes alone and draws no number. -/
theorem declareAll_of_numbered {ns : List Node} (h : ∀ b ∈ blocksAll ns, b.head.id.isSome)
    (s : BlockId × Registry) : (declareAll ns s).1 = ns ∧ (declareAll ns s).2.1 = s.1 := by
  induction ns using forest_induction generalizing s with
  | nil => exact ⟨rfl, rfl⟩
  | leaf n ns hn ih =>
    rw [forall_mem_blocksAll_leaf hn] at h
    simpa [declareAll_cons, declare_leaf hn] using ih h s
  | frame F inner ns ihi ih =>
    rw [forall_mem_blocksAll_framed] at h
    simp [declareAll_cons, declare_framed, ihi h.1, ih h.2]
  | block k inner ns ihi ih =>
    rw [forall_mem_blocksAll_block] at h
    obtain ⟨last, r⟩ := s
    have hhead : numbered last k = k := by
      rcases numbered_cases last k with ⟨he, -⟩ | ⟨he, hlast⟩
      · exact he
      · rw [lastAfter, if_pos h.1] at hlast
        omega
    simp [declareAll_cons, declare_block, hhead, lastAfter, h.1, ihi h.2.1, ih h.2.2]

/-- Linking a standalone document whose blocks have numbers gives it back. -/
theorem Standalone.link_of_numbered {ns : List Node} (h : Standalone ns)
    (hid : ∀ b ∈ blocksAll ns, b.head.id.isSome) (p : Position) :
    link (.group ⟨ns, p⟩) =
      .ok ⟨⟨ns, p⟩, (blocksAll ns).foldl (fun r b ↦ r.enter b.head) .empty, false⟩ := by
  have hfirst : ∀ n ∈ listingAll ns, n.isInherits = false := fun n hn ↦ (h n hn).1
  have hhead : ∀ n ∈ ns.head?, n.isInherits = false := by
    intro n hn
    exact hfirst n (mem_listingAll_of_mem (List.mem_of_mem_head? hn))
  have hdeclare := declareAll_of_numbered hid (0, .empty)
  rw [link_eq_ok]
  refine ⟨_, (linkNode_group_eq_ok hhead).mpr
    ⟨firstInheritAll_eq_none hfirst, ns, 0, expandAll_eq_ok h 0, ?_, rfl⟩⟩
  rw [declareAll_registry, hdeclare.1]

/-! ### Declaring blocks without numbers -/

/-- Blocks without numbers get the numbers after the last one, in document order. -/
theorem ids_declareAll {ns : List Node} (h : ∀ b ∈ blocksAll ns, b.head.id = none)
    (s : BlockId × Registry) :
    (blocksAll (declareAll ns s).1).map (·.head.id) =
        (List.range' (s.1 + 1) (blocksAll ns).length).map some ∧
      (declareAll ns s).2.1 = s.1 + (blocksAll ns).length := by
  induction ns using forest_induction generalizing s with
  | nil => exact ⟨rfl, rfl⟩
  | leaf n ns hn ih =>
    rw [forall_mem_blocksAll_leaf hn] at h
    simpa [declareAll_cons, declare_leaf hn, blocks_leaf hn] using ih h s
  | frame F inner ns ihi ih =>
    rw [forall_mem_blocksAll_framed] at h
    have hinner := ihi h.1 s
    have hns := ih h.2 (declareAll inner s).2
    rw [hinner.2, Nat.add_right_comm] at hns
    rw [declareAll_cons, declare_framed, blocksAll_cons, blocksAll_cons, blocks_framed,
      blocks_framed, List.map_append, List.length_append, hinner.1, hns.1, ← List.map_append,
      List.range'_append_1, hns.2]
    exact ⟨rfl, Nat.add_assoc ..⟩
  | block k inner ns ihi ih =>
    obtain ⟨(hk : k.id = none), hinner, hns⟩ := forall_mem_blocksAll_block.mp h
    obtain ⟨last, r⟩ := s
    have hid : (numbered last k).id = some (last + 1) := by simp [numbered, idFrom, hk]
    have hlast : lastAfter last k = last + 1 := by simp [lastAfter, hk]
    have hinner := ihi hinner (last + 1, r.enter (numbered last k))
    have hns := ih hns (declareAll inner (last + 1, r.enter (numbered last k))).2
    rw [hinner.2, Nat.add_right_comm] at hns
    rw [declareAll_cons, declare_block, hlast, blocksAll_cons, blocksAll_cons, blocks_block,
      blocks_block, List.cons_append, List.cons_append, List.map_cons, List.map_append,
      List.length_cons, List.length_append, hid, hinner.1, hns.1, ← List.map_append,
      List.range'_append_1, List.range'_succ, List.map_cons, hns.2]
    exact ⟨rfl, by simp only [Nat.add_assoc, Nat.add_comm 1]⟩

theorem id_eq_none_of_unnumberedAll {ns : List Node} (h : UnnumberedAll ns) {b : NamedBlock}
    (hb : b ∈ blocksAll ns) : b.head.id = none := by
  induction ns using forest_induction with
  | nil => cases hb
  | leaf n ns hn ih =>
    simp only [blocksAll_cons, blocks_leaf hn, List.nil_append] at hb
    exact ih (unnumberedAll_cons.mp h).2 hb
  | frame F inner ns ihi ih =>
    rw [unnumberedAll_cons] at h
    rw [blocksAll_cons, blocks_framed, List.mem_append] at hb
    rcases hb with hb | hb
    · exact ihi (UnnumberedAll.of_framed (F := F) (unnumberedAll_singleton.mpr h.1)) hb
    · exact ih h.2 hb
  | block k inner ns ihi ih =>
    rw [unnumberedAll_cons, unnumbered_block] at h
    rw [blocksAll_cons, blocks_block, List.cons_append, List.mem_cons, List.mem_append] at hb
    rcases hb with rfl | hb | hb
    · exact h.1.1
    · exact ihi h.1.2 hb
    · exact ih h.2 hb

theorem mapHeadsAll_unnumbered_eq_self {ns : List Node}
    (h : ∀ b ∈ blocksAll ns, b.head.id = none) : mapHeadsAll BlockHead.unnumbered ns = ns := by
  apply mapBlocksAll_eq_self
  rintro ⟨⟨name, mode, p, id, parents, ignored⟩, inner⟩ hb
  obtain rfl : id = none := h _ hb
  rfl

end Node

namespace Registry

theorem get_enter_of_isNamed {r : Registry} {h : BlockHead} {id : Nat} (hid : h.id = some id)
    (m : String) (hnew : id ∉ r.get m) :
    (r.enter h).get m = r.get m ++ if h.isNamed m then [id] else [] := by
  by_cases hmode : h.mode = .replace
  · by_cases hname : h.name = m
    · subst hname
      simp [enter, hid, hmode, get_register, hnew, BlockHead.isNamed]
    · simp [enter, hid, hmode, get_register, hname, BlockHead.isNamed]
  · simp [enter, hid, hmode, BlockHead.isNamed]

/-- Blocks with different numbers are registered under a name in the order in which they come. -/
theorem get_foldl_enter {bs : List NamedBlock} {ids : List Nat}
    (hids : bs.map (·.head.id) = ids.map some) (hnodup : ids.Nodup) {r : Registry} {m : String}
    (hnew : ∀ i ∈ ids, i ∉ r.get m) :
    (bs.foldl (fun r b ↦ r.enter b.head) r).get m =
      r.get m ++ bs.filterMap fun b ↦ if b.head.isNamed m then b.head.id else none := by
  induction bs generalizing ids r with
  | nil => simp
  | cons b bs ih =>
    obtain ⟨id, ids, rfl⟩ : ∃ i is, ids = i :: is := by
      cases ids with
      | nil => simp at hids
      | cons i is => exact ⟨i, is, rfl⟩
    rw [List.map_cons, List.map_cons, List.cons.injEq] at hids
    rw [List.nodup_cons] at hnodup
    rw [List.forall_mem_cons] at hnew
    have hget := get_enter_of_isNamed hids.1 m hnew.1
    have hfresh : ∀ i ∈ ids, i ∉ (r.enter b.head).get m := by
      intro i hi hmem
      rw [hget, List.mem_append] at hmem
      rcases hmem with hmem | hmem
      · exact hnew.2 i hi hmem
      · split at hmem
        · obtain rfl := List.mem_singleton.mp hmem
          exact hnodup.1 hi
        · cases hmem
    rw [List.foldl_cons, ih hids.2 hnodup.2 hfresh, hget, List.append_assoc, List.filterMap_cons]
    by_cases hnamed : b.head.isNamed m
    · simp [hnamed, hids.1]
    · simp [hnamed]

end Registry

namespace Node

/-- Linking a document without references numbers its blocks and does nothing else to it. -/
theorem Standalone.link_eq {ns : List Node} (h : Standalone ns)
    (hid : ∀ b ∈ blocksAll ns, b.head.id = none) {p : Position} {l : Linked}
    (hl : link (.group ⟨ns, p⟩) = .ok l) :
    Node.group ⟨mapHeadsAll BlockHead.unnumbered l.root.nodes, l.root.position⟩ =
        .group ⟨ns, p⟩ ∧
      (blocksAll l.root.nodes).map (·.head.id) =
        (List.range' 1 (blocksAll l.root.nodes).length).map some ∧
      l.declared.parents = .empty ∧
      ∀ name, l.declared.get name = (blocksAll l.root.nodes).filterMap fun b ↦
        if b.head.isNamed name then b.head.id else none := by
  have hfirst : ∀ n ∈ listingAll ns, n.isInherits = false := fun n hn ↦ (h n hn).1
  have hhead : ∀ n ∈ ns.head?, n.isInherits = false := by
    intro n hn
    exact hfirst n (mem_listingAll_of_mem (List.mem_of_mem_head? hn))
  obtain ⟨s', hl⟩ := link_eq_ok.mp hl
  obtain ⟨-, ns', s₁, hns, rfl, -⟩ := (linkNode_group_eq_ok hhead).mp hl
  rw [expandAll_eq_ok h] at hns
  cases hns
  have hids := (ids_declareAll hid (0, .empty)).1
  have hlength : (blocksAll (declareAll ns (0, .empty)).1).length = (blocksAll ns).length := by
    simpa using congrArg List.length hids
  refine ⟨?_, ?_, ?_, fun name ↦ ?_⟩
  · rw [mapHeadsAll_declareAll fun _ _ ↦ rfl, mapHeadsAll_unnumbered_eq_self hid]
  · rw [hlength]
    exact hids
  · rw [declareAll_registry, parents_foldl_enter]
    rfl
  · rw [declareAll_registry, Registry.get_foldl_enter hids List.nodup_range']
    · rfl
    · simp [Registry.empty, Registry.get]

end Node

/-- A document that does not inherit registers the blocks of its linked tree. -/
theorem Linked.declared_of_not_inherits {d : Node} {l : Linked} (h : link d = .ok l)
    (hl : l.inherits = false) :
    l.declared = (blocksAll l.root.nodes).foldl (fun r b ↦ r.enter b.head) .empty := by
  obtain ⟨s', h⟩ := link_eq_ok.mp h
  refine linkNode_induction (motive := fun _ _ l _ ↦ l.inherits = false →
    l.declared = (blocksAll l.root.nodes).foldl (fun r b ↦ r.enter b.head) .empty) ?_ ?_ d h hl
  · intro ns p s ns' s' _ _ _
    exact declareAll_registry ns' s' .empty
  · intro f d q ns p s ns' s' overrides parent s'' l _ _ _ hi hl
    obtain ⟨-, rfl⟩ := Linked.inherit_eq_ok.mp hi
    cases hl

/-- Linking a linked document gives it back, and its registry unless it inherits. A document
without references is linked to itself but for the numbers of its blocks, which are registered in
document order. -/
theorem Linked.link_root {d : Node} {l : Linked} (hd : d.Unnumbered) (h : link d = .ok l) :
    (∃ r, link (.group l.root) = .ok ⟨l.root, r, false⟩ ∧
      (l.inherits = false → r = l.declared)) ∧
      (Standalone [d] →
        Node.group ⟨mapHeadsAll BlockHead.unnumbered l.root.nodes, l.root.position⟩ = d ∧
        (blocksAll l.root.nodes).map (·.head.id) =
          (List.range' 1 (blocksAll l.root.nodes).length).map some ∧
        l.declared.parents = .empty ∧
        ∀ name, l.declared.get name = (blocksAll l.root.nodes).filterMap fun b ↦
          if b.head.isNamed name then b.head.id else none) := by
  constructor
  · obtain ⟨s', hl⟩ := link_eq_ok.mp h
    obtain ⟨gs, -, hsound⟩ := Linked.sound hd hl
    have hid : ∀ b ∈ blocksAll l.root.nodes, b.head.id.isSome := by
      intro b hb
      obtain ⟨i, hi, -⟩ := hsound.numbered b hb
      simp [hi]
    have hkinds := Linked.ofKinds_link (K := fun _ ↦ True) trivial trivial h fun _ _ ↦ trivial
    have hroot : Standalone l.root.nodes := (hkinds.imp fun _ hk ↦ hk.2).standalone
    refine ⟨_, hroot.link_of_numbered hid l.root.position, fun hinherits ↦ ?_⟩
    exact (Linked.declared_of_not_inherits h hinherits).symm
  · intro hstandalone
    cases d with
    | group b =>
      obtain ⟨ns, p⟩ := b
      have hns : Standalone ns := fun m hm ↦ hstandalone m (by simp [listingAll, listing, hm])
      refine hns.link_eq (fun b hb ↦ ?_) h
      exact id_eq_none_of_unnumberedAll (unnumbered_group.mp hd) hb
    | _ =>
      obtain ⟨s', hl⟩ := link_eq_ok.mp h
      exact absurd hl Link.throw_ne_ok

/-- A document with a block inside another of its name, and one in append mode. -/
def sectionedDocument : Node :=
  .group ⟨[
    .block (.fresh "page" .replace ⟨none, 1⟩)
      [.block (.fresh "title" .append ⟨none, 1⟩) [], .text "T" ⟨none, 1⟩,
        .block (.fresh "page" .replace ⟨none, 2⟩) []],
    .filter ⟨"upper", [], ⟨none, 3⟩⟩ ⟨[.yield ⟨none, 3⟩], ⟨none, 3⟩⟩], ⟨none, 1⟩⟩

theorem link_root_sectionedDocument :
    (∃ l, copyingDocument.Unnumbered ∧ link copyingDocument = .ok l ∧
      ∃ r, link (.group l.root) = .ok ⟨l.root, r, false⟩ ∧
        (l.inherits = false → r = l.declared)) ∧
      ∃ l, sectionedDocument.Unnumbered ∧ link sectionedDocument = .ok l ∧
        Standalone [sectionedDocument] ∧
        Node.group ⟨mapHeadsAll BlockHead.unnumbered l.root.nodes, l.root.position⟩ =
          sectionedDocument ∧
        l.declared.get "page" = [1, 3] := by
  have hcopying : copyingDocument.Unnumbered := by decide
  refine ⟨⟨_, hcopying, rfl, (Linked.link_root hcopying rfl).1⟩, _, by decide, rfl, by decide, ?_⟩
  obtain ⟨hroot, -, -, hget⟩ :=
    (Linked.link_root (d := sectionedDocument) (by decide) rfl).2 (by decide)
  exact ⟨hroot, hget "page"⟩

end Templating
