import Mathlib.Data.List.Forall2
import Templating.Proofs.Loading.Dependencies

/-!
# Documents without their layout

The layout of a text decides the lines that the nodes of its document stand in, and the texts of
argument lists and option values, which are kept as they are written. The rest of a tree is what the
tokens of the text say (`Node.withoutLayout`). It tells in particular what the document refers to
(`Node.references_withoutLayoutAll`).
-/

namespace Templating

section

-- File names are not part of the layout. What becomes of them is left open, so that documents of
-- different files can be compared.
variable (files : Option Path → Option Path)

/-- The place without its line. -/
def Position.withoutLayout (p : Position) : Position := ⟨files p.file, 0⟩

/-- The reference with another name of the file that holds it. -/
def Reference.withoutLayout (f : Reference) : Reference := { f with source := files f.source }

/-- The option without the text of its value. -/
def Attr.withoutLayout : Attr → Attr
  | ⟨name, .flag⟩ => ⟨name, .flag⟩
  | ⟨name, .expr _⟩ => ⟨name, .expr ""⟩

/-- The filter without its line and without the texts of its option values. -/
def FilterUse.withoutLayout (u : FilterUse) : FilterUse :=
  ⟨u.name, u.attrs.map Attr.withoutLayout, u.position.withoutLayout files⟩

/-- The head without its line. -/
def BlockHead.withoutLayout (h : BlockHead) : BlockHead :=
  { h with position := h.position.withoutLayout files }

/-- The head without its line and without the text of its argument list. -/
def MixinHead.withoutLayout (h : MixinHead) : MixinHead :=
  { h with args := h.args.map fun _ ↦ "", position := h.position.withoutLayout files }

/-- The head without its line. -/
def TagHead.withoutLayout (h : TagHead) : TagHead :=
  { h with position := h.position.withoutLayout files }

namespace Node

mutual

/-- The tree without what the layout of its text decides: lines, argument lists and option values.
File names are sent through `files`. Loaded documents have texts of their own and are kept. -/
def withoutLayout : Node → Node
  | .group ⟨ns, p⟩ => .group ⟨withoutLayoutAll ns, p.withoutLayout files⟩
  | .block h ns => .block (h.withoutLayout files) (withoutLayoutAll ns)
  | .inherits f d p => .inherits (f.withoutLayout files) d (p.withoutLayout files)
  | .includes f d b p =>
    .includes (f.withoutLayout files) d (withoutLayoutBody b) (p.withoutLayout files)
  | .includesRaw f d us p =>
    .includesRaw (f.withoutLayout files) d (us.map (FilterUse.withoutLayout files))
      (p.withoutLayout files)
  | .mixin h b => .mixin (h.withoutLayout files) (withoutLayoutBody b)
  | .filter u ⟨ns, p⟩ =>
    .filter (u.withoutLayout files) ⟨withoutLayoutAll ns, p.withoutLayout files⟩
  | .yield p => .yield (p.withoutLayout files)
  | .text v p => .text v (p.withoutLayout files)
  | .tag h ⟨ns, p⟩ => .tag (h.withoutLayout files) ⟨withoutLayoutAll ns, p.withoutLayout files⟩
  termination_by structural n => n

/-- The trees without layout. -/
def withoutLayoutAll : List Node → List Node
  | [] => []
  | n :: ns => withoutLayout n :: withoutLayoutAll ns
  termination_by structural ns => ns

/-- A nested sequence without layout. -/
def withoutLayoutBody : Option (Body Node) → Option (Body Node)
  | none => none
  | some ⟨ns, p⟩ => some ⟨withoutLayoutAll ns, p.withoutLayout files⟩
  termination_by structural b => b

end

end Node

end

theorem forall₂_map_eq {α β : Type} {f : α → β} {as bs : List α}
    (h : List.Forall₂ (fun a b ↦ f a = f b) as bs) : as.map f = bs.map f := by
  rwa [← List.forall₂_eq_eq_eq, List.forall₂_map_left_iff, List.forall₂_map_right_iff]

/-- What the reference names, and whether it is read as a template. -/
def Dependency.written (r : Dependency) : Bool × String := (r.asTemplate, r.file.path)

namespace Node

/-- What nodes refer to, as it is written. -/
def references (ns : List Node) : List (Bool × String) :=
  (dependenciesAll ns).map Dependency.written

/-- The nodes refer to the same. -/
def SameReferences (n m : Node) : Prop := references [n] = references [m]

/-- The trees differ in layout only, when file names are sent through `files`. -/
def Alike (files : Option Path → Option Path) (n m : Node) : Prop :=
  n.withoutLayout files = m.withoutLayout files

/-- The trees differ one by one in layout only. -/
def AlikeAll (files : Option Path → Option Path) (ns ms : List Node) : Prop :=
  withoutLayoutAll files ns = withoutLayoutAll files ms

variable {files : Option Path → Option Path} {n m : Node} {ns ms : List Node}

theorem withoutLayoutAll_eq_map (ns : List Node) :
    withoutLayoutAll files ns = ns.map (withoutLayout files) := by
  induction ns with
  | nil => rfl
  | cons n ns ih => rw [withoutLayoutAll, ih, List.map_cons]

theorem AlikeAll.of_forall₂ (h : List.Forall₂ (Alike files) ns ms) : AlikeAll files ns ms := by
  rw [AlikeAll, withoutLayoutAll_eq_map, withoutLayoutAll_eq_map]
  exact forall₂_map_eq h

theorem references_cons (n : Node) (ns : List Node) :
    references (n :: ns) = references [n] ++ references ns := by
  simp [references]

theorem references_withoutLayoutAll (files : Option Path → Option Path) (ns : List Node) :
    references (withoutLayoutAll files ns) = references ns := by
  induction ns using forest_induction with
  | nil => rfl
  | leaf n ns hn ih =>
    rw [withoutLayoutAll, references_cons, ih, references_cons n]
    cases n, hn using leaf_cases <;> rfl
  | frame F inner ns ihi ih =>
    rw [withoutLayoutAll, references_cons, ih, references_cons (framed F inner)]
    rw [references, references] at ihi
    congr 1
    cases F <;> simp [framed, withoutLayout, withoutLayoutBody, references, Dependency.unfolded,
      Dependency.written, Reference.withoutLayout, ihi]
  | block h inner ns ihi ih =>
    rw [withoutLayoutAll, references_cons, ih, references_cons (.block h inner)]
    rw [references, references] at ihi
    simp [withoutLayout, references, ihi]

theorem Alike.sameReferences (h : Alike files n m) : SameReferences n m := by
  have hall : AlikeAll files [n] [m] := congrArg ([·]) h
  rw [SameReferences, ← references_withoutLayoutAll files, hall, references_withoutLayoutAll]

end Node

end Templating
