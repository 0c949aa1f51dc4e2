import Templating.Node.Outline
import Templating.Proofs.Grammar.Lines
import Templating.Proofs.Node.Documents

/-!
# Outlines

An outline is the headlines of the nodes in document order, each indented by the level of its node
(`Node.outlineAll_eq`). Cut at its line feeds it has a line for each node, and one more for each
line feed inside a headline (`Node.length_lines_outline`).
-/

namespace Templating

namespace Source

theorem lines_ne_nil {cs : List Char} (h : cs ≠ []) : lines cs ≠ [] := by
  cases cs with
  | nil => exact absurd rfl h
  | cons c cs =>
    rw [lines]
    split
    · exact List.cons_ne_nil _ _
    · split <;> exact List.cons_ne_nil _ _

theorem length_lines_append_lineFeed (v cs : List Char) :
    (lines (v ++ '\n' :: cs)).length = v.count '\n' + 1 + (lines cs).length := by
  induction v with
  | nil => rw [List.nil_append, lines, if_pos rfl, List.length_cons, List.count_nil]; omega
  | cons c v ih =>
    rw [List.cons_append, lines]
    by_cases hc : c = '\n'
    · rw [if_pos hc, List.length_cons, ih, hc, List.count_cons_self]
      omega
    · rw [if_neg hc, List.count_cons_of_ne hc, ← ih]
      cases hlines : lines (v ++ '\n' :: cs) with
      | nil => exact absurd hlines (lines_ne_nil (by simp))
      | cons l rest => rfl

end Source

namespace Node

open Source

mutual

/-- A node and the nodes inside it in document order, each with its level, when the node is at
level `level`. Loaded documents are left out. -/
def levelled (level : Nat) : Node → List (Nat × Node)
  | .group ⟨ns, p⟩ => (level, .group ⟨ns, p⟩) :: levelledAll (level + 1) ns
  | .block h ns => (level, .block h ns) :: levelledAll (level + 1) ns
  | .includes f d (some ⟨ns, p⟩) q =>
    (level, .includes f d (some ⟨ns, p⟩) q) :: levelledAll (level + 1) ns
  | .mixin h (some ⟨ns, p⟩) => (level, .mixin h (some ⟨ns, p⟩)) :: levelledAll (level + 1) ns
  | .filter u ⟨ns, p⟩ => (level, .filter u ⟨ns, p⟩) :: levelledAll (level + 1) ns
  | .tag h ⟨ns, p⟩ => (level, .tag h ⟨ns, p⟩) :: levelledAll (level + 1) ns
  | n => [(level, n)]
  termination_by structural n => n

/-- Nodes and the nodes inside them, each with its level. -/
def levelledAll (level : Nat) : List Node → List (Nat × Node)
  | [] => []
  | n :: ns => levelled level n ++ levelledAll level ns
  termination_by structural ns => ns

end

variable {level : Nat} {n : Node} {ns : List Node} {F : Frame} {h : BlockHead}

theorem levelled_leaf (hn : isLeaf n) : n.levelled level = [(level, n)] := by
  cases n, hn using leaf_cases <;> rfl

theorem levelled_framed :
    (framed F ns).levelled level = (level, framed F ns) :: levelledAll (level + 1) ns := by
  cases F <;> rfl

theorem outlineLines_leaf (hn : isLeaf n) :
    n.outlineLines level = [indent level ++ n.headline] := by
  cases n, hn using leaf_cases <;> rfl

theorem outlineLines_framed :
    (framed F ns).outlineLines level =
      (indent level ++ (framed F ns).headline) :: outlineAll (level + 1) ns := by
  cases F <;> rfl

/-- Outlines show each node at its level. -/
theorem outlineAll_eq (level : Nat) (ns : List Node) :
    outlineAll level ns = (levelledAll level ns).map fun e ↦ indent e.1 ++ e.2.headline := by
  induction ns using forest_induction generalizing level with
  | nil => rfl
  | leaf n ns hn ih =>
    rw [outlineAll, levelledAll, outlineLines_leaf hn, levelled_leaf hn, ih]
    rfl
  | frame F inner ns ihi ih =>
    rw [outlineAll, levelledAll, outlineLines_framed, levelled_framed, ihi, ih, List.map_append,
      List.map_cons]
  | block h inner ns ihi ih =>
    rw [outlineAll, levelledAll, ih, List.map_append]
    exact congrArg (_ :: · ++ _) (ihi _)

/-- Where no documents are loaded, the levels are those of the listing. -/
theorem map_snd_levelledAll (hns : ∀ m ∈ listingAll ns, m.document? = none) (level : Nat) :
    (levelledAll level ns).map Prod.snd = listingAll ns := by
  induction ns using forest_induction generalizing level with
  | nil => rfl
  | leaf n ns hn ih =>
    rw [listingAll_cons, listing_leaf hn, List.cons_append, List.forall_mem_cons] at hns
    rw [levelledAll, levelled_leaf hn, listingAll_cons, listing_leaf hn, hns.1,
      List.map_append, ih fun m hm ↦ hns.2 m (List.mem_append_right _ hm)]
    rfl
  | frame F inner ns ihi ih =>
    rw [listingAll_cons, listing_framed, List.cons_append, List.forall_mem_cons] at hns
    obtain ⟨hdocument, hinner⟩ := hns
    rw [hdocument, Option.toList_none, listingAll_nil, List.nil_append,
      List.forall_mem_append] at hinner
    rw [levelledAll, levelled_framed, listingAll_cons, listing_framed, hdocument,
      List.map_append, List.map_cons, ihi hinner.1, ih hinner.2]
    rfl
  | block h inner ns ihi ih =>
    rw [listingAll_cons, listing_block, List.cons_append, List.forall_mem_cons,
      List.forall_mem_append] at hns
    rw [listingAll_cons, listing_block, ← ihi hns.2.1 (level + 1), ← ih hns.2.2 level]
    simp [levelledAll, levelled]

/-! ### Lines -/

/-- The part of an outline for a node at a level. -/
def outlined (e : Nat × Node) : List Char :=
  List.replicate (2 * e.1) ' ' ++ (e.2.headline.toList ++ ['\n'])

theorem toList_outline (ns : List Node) :
    (outline ns).toList = (levelledAll 0 ns).flatMap outlined := by
  rw [outline, outlineAll_eq, List.map_map]
  generalize levelledAll 0 ns = es
  induction es with
  | nil => rfl
  | cons e es ih =>
    rw [List.map_cons, String.join_cons, String.toList_append, ih, List.flatMap_cons]
    simp [outlined, indent]

theorem length_lines_outlined (e : Nat × Node) (cs : List Char) :
    (lines (outlined e ++ cs)).length =
      e.2.headline.toList.count '\n' + 1 + (lines cs).length := by
  have hline : outlined e ++ cs =
      (List.replicate (2 * e.1) ' ' ++ e.2.headline.toList) ++ '\n' :: cs := by simp [outlined]
  rw [hline, length_lines_append_lineFeed, List.count_append, List.count_replicate]
  simp

/-- An outline has a line for each node and for each line feed in a headline. -/
theorem length_lines_outline (ns : List Node) :
    (lines (outline ns).toList).length = (levelledAll 0 ns).length +
      ((levelledAll 0 ns).flatMap fun e ↦ e.2.headline.toList).count '\n' := by
  rw [toList_outline]
  generalize levelledAll 0 ns = es
  induction es with
  | nil => rfl
  | cons e es ih =>
    rw [List.flatMap_cons, length_lines_outlined, ih, List.length_cons, List.flatMap_cons,
      List.count_append]
    omega

theorem lines_outline (hns : ∀ e ∈ levelledAll 0 ns, '\n' ∉ e.2.headline.toList) :
    lines (outline ns).toList = (levelledAll 0 ns).map outlined := by
  rw [toList_outline]
  generalize levelledAll 0 ns = es at hns
  induction es with
  | nil => rfl
  | cons e es ih =>
    rw [List.forall_mem_cons] at hns
    have hline : '\n' ∉ List.replicate (2 * e.1) ' ' ++ e.2.headline.toList := by
      simp [hns.1]
    have hcut := lines_append_lineFeed hline (es.flatMap outlined)
    rw [List.flatMap_cons, List.map_cons, ← ih hns.2, outlined]
    simpa using hcut

end Node

end Templating
