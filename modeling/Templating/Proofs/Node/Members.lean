import Templating.Proofs.Loading.Dependencies
import Templating.Proofs.Linking.Induction

/-!
# The nodes of one document

The nodes of a document in document order, without those of the documents that are loaded for its
references (`Node.members`). A reference to a template leads from a document to another one
(`Node.Reaches`), so that a loaded tree is a graph of documents, each with its own nodes.
-/

namespace Templating.Node

mutual

/-- A node and the nodes inside it, loaded documents apart. -/
def members : Node → List Node
  | .group ⟨ns, p⟩ => .group ⟨ns, p⟩ :: membersAll ns
  | .block h ns => .block h ns :: membersAll ns
  | .includes f d (some ⟨ns, p⟩) q => .includes f d (some ⟨ns, p⟩) q :: membersAll ns
  | .mixin h (some ⟨ns, p⟩) => .mixin h (some ⟨ns, p⟩) :: membersAll ns
  | .filter u ⟨ns, p⟩ => .filter u ⟨ns, p⟩ :: membersAll ns
  | .tag h ⟨ns, p⟩ => .tag h ⟨ns, p⟩ :: membersAll ns
  | n => [n]
  termination_by structural n => n

/-- Several nodes and the nodes inside them, every node before those inside it. -/
def membersAll : List Node → List Node
  | [] => []
  | n :: ns => members n ++ membersAll ns
  termination_by structural ns => ns

end

/-- The document at the other end of a reference to a template. -/
def template? (n : Node) : Option Node :=
  n.dependency?.bind fun r ↦ if r.asTemplate then r.document else none

/-- The document itself, the documents loaded for its references to templates, and those that they
reach. -/
inductive Reaches : Node → Node → Prop where
  | self (d : Node) : Reaches d d
  | step {d m d' e : Node} : m ∈ d.members → m.template? = some d' → Reaches d' e → Reaches d e

/-- The statements of a document behind the one that it inherits. -/
def ownStatements : List Node → List Node
  | .inherits .. :: rest => rest
  | ns => ns

theorem ownStatements_of_head {ns : List Node} (h : ∀ n ∈ ns.head?, n.isInherits = false) :
    ownStatements ns = ns := by
  cases ns with
  | nil => rfl
  | cons n ns =>
    cases n with
    | inherits => simp [isInherits] at h
    | _ => rfl

@[simp] theorem membersAll_nil : membersAll [] = [] := rfl

@[simp] theorem membersAll_cons (n : Node) (ns : List Node) :
    membersAll (n :: ns) = members n ++ membersAll ns := rfl

@[simp] theorem membersAll_append (ns ms : List Node) :
    membersAll (ns ++ ms) = membersAll ns ++ membersAll ms := by
  induction ns with
  | nil => rfl
  | cons n ns ih => simp [ih]

theorem members_leaf {n : Node} (hn : n.isLeaf) : members n = [n] := by
  cases n, hn using leaf_cases <;> rfl

theorem members_framed (F : Frame) (ns : List Node) :
    members (framed F ns) = framed F ns :: membersAll ns := by
  cases F <;> rfl

@[simp] theorem members_block (h : BlockHead) (ns : List Node) :
    members (.block h ns) = .block h ns :: membersAll ns := rfl

@[simp] theorem members_group (ns : List Node) (p : Position) :
    members (.group ⟨ns, p⟩) = .group ⟨ns, p⟩ :: membersAll ns := rfl

theorem document?_eq_some_of_template? {n d : Node} (h : n.template? = some d) :
    n.document? = some d := by
  cases n with
  | inherits | includes => exact h
  | _ => cases h

/-- The listing of nodes goes on into the documents of their members. -/
theorem listing_subset_of_mem_membersAll {ns : List Node} {m d : Node} (hm : m ∈ membersAll ns)
    (hd : m.document? = some d) : d.listing ⊆ listingAll ns := by
  have hself : d.listing ⊆ m.listing := by
    simpa [hd] using listingAll_document_subset m
  induction ns using forest_induction with
  | nil => cases hm
  | leaf n ns hn ih =>
    rw [membersAll_cons, members_leaf hn, List.singleton_append, List.mem_cons] at hm
    rw [listingAll_cons]
    obtain rfl | hm := hm
    · exact List.subset_append_of_subset_left _ hself
    · exact List.subset_append_of_subset_right _ (ih hm)
  | frame F inner ns ihi ih =>
    rw [membersAll_cons, members_framed, List.mem_append, List.mem_cons] at hm
    rw [listingAll_cons]
    obtain (rfl | hm) | hm := hm
    · exact List.subset_append_of_subset_left _ hself
    · refine List.subset_append_of_subset_left _ (List.Subset.trans (ihi hm) ?_)
      rw [listing_framed]
      exact List.subset_cons_of_subset _ (List.subset_append_right _ _)
    · exact List.subset_append_of_subset_right _ (ih hm)
  | block h inner ns ihi ih =>
    rw [membersAll_cons, members_block, List.mem_append, List.mem_cons] at hm
    rw [listingAll_cons]
    obtain (rfl | hm) | hm := hm
    · exact List.subset_append_of_subset_left _ hself
    · refine List.subset_append_of_subset_left _ (List.Subset.trans (ihi hm) ?_)
      rw [listing_block]
      exact List.subset_cons_self _ _
    · exact List.subset_append_of_subset_right _ (ih hm)

/-- A document lists everything in the documents that it reaches. -/
theorem Reaches.listing_subset {d e : Node} (h : d.Reaches e) : e.listing ⊆ d.listing := by
  induction h with
  | self d => exact List.Subset.refl _
  | @step d m d' e hm ht _ ih =>
    have hmem : m ∈ membersAll [d] := by simpa using hm
    have hd := listing_subset_of_mem_membersAll hmem (document?_eq_some_of_template? ht)
    exact List.Subset.trans ih (by simpa using hd)

/-- The first inherit statement of nodes is the first of their members that is one. -/
theorem firstInheritAll_eq_find? (ns : List Node) :
    firstInheritAll ns = ((membersAll ns).find? isInherits).map position := by
  induction ns using forest_induction with
  | nil => rfl
  | leaf n ns hn ih =>
    rw [firstInheritAll, membersAll_cons, members_leaf hn, List.find?_append, ih]
    cases n, hn using leaf_cases <;> simp [firstInherit, isInherits, position]
  | frame F inner ns ihi ih =>
    have hfirst : firstInherit (framed F inner) = firstInheritAll inner := by cases F <;> rfl
    have hframe : (framed F inner).isInherits = false := by cases F <;> rfl
    rw [firstInheritAll, hfirst, ihi, ih, membersAll_cons, members_framed, List.find?_append,
      List.find?_cons_of_neg (by simp [hframe]), Option.map_or]
  | block h inner ns ihi ih =>
    rw [firstInheritAll, firstInherit, ihi, ih, membersAll_cons, members_block, List.find?_append,
      List.find?_cons_of_neg (by simp [isInherits]), Option.map_or]

theorem firstInheritAll_eq_none_iff {ns : List Node} :
    firstInheritAll ns = none ↔ ∀ m ∈ membersAll ns, m.isInherits = false := by
  simp [firstInheritAll_eq_find?]

end Templating.Node
