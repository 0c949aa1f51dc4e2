import Templating.Node.Outline
import Templating.Proofs.Linking.Declaration
import Templating.Proofs.Linking.Standalone
import Templating.Proofs.Linking.Yielding

/-!
# Texts and holes

A document read as a sequence of texts, with holes at its yield points. A reference to another file
is read as what stands in its place: the text of the file, or the pieces of its document, whose
holes take in the content of the include site. Content put at yield points goes into the holes
(`Node.piecesAll_fillYieldsAll`).
-/

namespace Templating

open Node

/-- A text of a document, or a place for content. -/
inductive Piece where
  | text (value : String)
  | hole
  deriving DecidableEq, Repr

namespace Piece

/-- Put pieces into the holes. -/
def fill (content : List Piece) : List Piece → List Piece
  | [] => []
  | .text v :: ps => .text v :: fill content ps
  | .hole :: ps => content ++ fill content ps

/-- The texts, one after the other. -/
def shown : List Piece → String
  | [] => ""
  | .text v :: ps => v ++ shown ps
  | .hole :: ps => shown ps

theorem fill_append (content ps qs : List Piece) :
    fill content (ps ++ qs) = fill content ps ++ fill content qs := by
  induction ps with
  | nil => rfl
  | cons p ps ih => cases p <;> simp [fill, ih]

theorem shown_append (ps qs : List Piece) : shown (ps ++ qs) = shown ps ++ shown qs := by
  induction ps with
  | nil => simp [shown]
  | cons p ps ih => cases p <;> simp [shown, ih, String.append_assoc]

end Piece

namespace Node

mutual

/-- What a node reads as. A mixin definition reads as nothing. -/
def pieces : Node → List Piece
  | .text v _ => [.text v]
  | .yield _ => [.hole]
  | .group ⟨ns, _⟩ => piecesAll ns
  | .block _ ns => piecesAll ns
  | .filter _ ⟨ns, _⟩ => piecesAll ns
  | .tag _ ⟨ns, _⟩ => piecesAll ns
  | .mixin h b => if h.isCall then piecesBody b else []
  | .includes _ d (some ⟨n :: ns, _⟩) _ => Piece.fill (piecesAll (n :: ns)) (piecesDocument d)
  | .includes _ d _ _ => piecesDocument d
  | .includesRaw f _ _ _ => (f.text.map fun t ↦ Piece.text (withoutReturns t)).toList
  | .inherits .. => []
  termination_by structural n => n

/-- What nodes read as, in document order. -/
def piecesAll : List Node → List Piece
  | [] => []
  | n :: ns => pieces n ++ piecesAll ns
  termination_by structural ns => ns

/-- What a loaded document reads as. -/
def piecesDocument : Option Node → List Piece
  | none => []
  | some d => pieces d
  termination_by structural d => d

/-- What a nested sequence reads as. -/
def piecesBody : Option (Body Node) → List Piece
  | none => []
  | some ⟨ns, _⟩ => piecesAll ns
  termination_by structural b => b

end

@[simp] theorem piecesAll_nil : piecesAll [] = [] := rfl

@[simp] theorem piecesAll_cons (n : Node) (ns : List Node) :
    piecesAll (n :: ns) = pieces n ++ piecesAll ns := rfl

@[simp] theorem pieces_block (h : BlockHead) (ns : List Node) :
    pieces (.block h ns) = piecesAll ns := rfl

@[simp] theorem pieces_group (ns : List Node) (p : Position) :
    pieces (.group ⟨ns, p⟩) = piecesAll ns := rfl

/-- An include with content reads as its document with the content in the holes. -/
theorem pieces_includes_of_ne_nil {ns : List Node} (h : ns ≠ []) (f : Reference)
    (d : Option Node) (q p : Position) :
    pieces (.includes f d (some ⟨ns, q⟩) p) = Piece.fill (piecesAll ns) (piecesDocument d) := by
  cases ns with
  | nil => exact absurd rfl h
  | cons n ns => rfl

/-- What a frame reads as depends on what its sequence reads as, and on whether there is one. -/
theorem pieces_framed_congr {ns ms : List Node} (hnil : ms = [] ↔ ns = [])
    (h : piecesAll ms = piecesAll ns) (F : Frame) :
    pieces (framed F ms) = pieces (framed F ns) := by
  cases F with
  | includes f d p q =>
    by_cases hns : ns = []
    · rw [hns, hnil.mpr hns]
    · simp only [framed, pieces_includes_of_ne_nil hns, pieces_includes_of_ne_nil (mt hnil.mp hns),
        h]
  | mixin k p => simp only [framed, pieces, piecesBody, h]
  | _ => exact h

/-! ### Yield points -/

/-- Content leaves the yield points that it brings along. -/
theorem hasYieldAll_fillYieldsAll (content : Block) (ns : List Node) :
    hasYieldAll (fillYieldsAll content ns) =
      (hasYieldAll ns && hasYieldAll content.nodes) := by
  induction ns using forest_induction with
  | nil => rfl
  | leaf n ns hn ih =>
    have hfill : hasYield (fillYields content n) = (hasYield n && hasYieldAll content.nodes) := by
      cases n, hn using leaf_cases with
      | yield p => simp [fillYields, hasYield]
      | _ => rfl
    simp [fillYieldsAll, hfill, ih, Bool.and_or_distrib_right]
  | frame F inner ns ihi ih =>
    simp [fillYieldsAll, fillYields_framed, ihi, ih, Bool.and_or_distrib_right]
  | block h inner ns ihi ih =>
    simp [fillYieldsAll, fillYields, ihi, ih, Bool.and_or_distrib_right]

/-- Filling yield points fills the holes. -/
theorem piecesAll_fillYieldsAll (content : Block) {ns : List Node} (h : Standalone ns) :
    piecesAll (fillYieldsAll content ns) = Piece.fill (piecesAll content.nodes) (piecesAll ns) := by
  induction ns using forest_induction with
  | nil => rfl
  | leaf n ns hn ih =>
    have hfill : pieces (fillYields content n) =
        Piece.fill (piecesAll content.nodes) (pieces n) := by
      cases n, hn using leaf_cases with
      | yield p => simp [fillYields, pieces, Piece.fill]
      | text v p => rfl
      | mixin k => simp [fillYields, pieces, piecesBody, Piece.fill]
      | inherits => rfl
      | includes => exact absurd h.of_cons.1.2 (by simp [isInclusion])
      | includesRaw => exact absurd h.of_cons.1.2 (by simp [isInclusion])
    simp [fillYieldsAll, hfill, ih h.of_cons.2, Piece.fill_append]
  | frame F inner ns ihi ih =>
    have hfill : pieces (framed F (fillYieldsAll content inner)) =
        Piece.fill (piecesAll content.nodes) (pieces (framed F inner)) := by
      cases F with
      | includes => exact absurd h.of_cons.1.2 (by simp [framed, isInclusion])
      | mixin k p =>
        by_cases hk : k.isCall
        · simp [framed, pieces, piecesBody, hk, ihi h.of_framed]
        · simp [framed, pieces, hk, Piece.fill]
      | _ => exact ihi h.of_framed
    simp [fillYieldsAll, fillYields_framed, hfill, ih h.of_cons.2, Piece.fill_append]
  | block k inner ns ihi ih =>
    simp [fillYieldsAll, fillYields, ihi h.of_block, ih h.of_cons.2, Piece.fill_append]

/-! ### Numbers of blocks -/

theorem piecesAll_bareAll (ns : List Node) : piecesAll (bareAll ns) = piecesAll ns := by
  unfold bareAll
  induction ns using forest_induction with
  | nil => rfl
  | leaf n ns hn ih => simp [mapHeadsAll_cons_leaf hn, ih]
  | frame F inner ns ihi ih =>
    simp [mapHeadsAll_cons_framed, pieces_framed_congr mapHeadsAll_eq_nil_iff ihi, ih]
  | block k inner ns ihi ih => simp [mapHeadsAll_cons_block, ihi, ih]

/-- Numbering blocks changes nothing of what is read. -/
theorem piecesAll_declareAll (ns : List Node) (s : BlockId × Registry) :
    piecesAll (declareAll ns s).1 = piecesAll ns := by
  rw [← piecesAll_bareAll, bareAll_declareAll, piecesAll_bareAll]

theorem hasYieldAll_declareAll (ns : List Node) (s : BlockId × Registry) :
    hasYieldAll (declareAll ns s).1 = hasYieldAll ns := by
  rw [← hasYieldAll_mapHeadsAll BlockHead.bare]
  exact (congrArg hasYieldAll (bareAll_declareAll ns s)).trans (hasYieldAll_mapHeadsAll _ ns)

/-! ### Shown text -/

/-- A document without references shows its texts. -/
theorem shownTextAll_eq_shown {ns : List Node} (h : Standalone ns) :
    shownTextAll ns = Piece.shown (piecesAll ns) := by
  induction ns using forest_induction with
  | nil => rfl
  | leaf n ns hn ih =>
    have hshown : shownText n = Piece.shown (pieces n) := by
      cases n, hn using leaf_cases with
      | text v p => simp [shownText, pieces, Piece.shown]
      | mixin k => simp [shownText, pieces, piecesBody, Piece.shown]
      | yield => rfl
      | inherits => rfl
      | includes => exact absurd h.of_cons.1.2 (by simp [isInclusion])
      | includesRaw => exact absurd h.of_cons.1.2 (by simp [isInclusion])
    simp [shownTextAll, hshown, ih h.of_cons.2, Piece.shown_append]
  | frame F inner ns ihi ih =>
    have hshown : shownText (framed F inner) = Piece.shown (pieces (framed F inner)) := by
      cases F with
      | includes => exact absurd h.of_cons.1.2 (by simp [framed, isInclusion])
      | mixin k p =>
        by_cases hk : k.isCall
        · simp [framed, shownText, pieces, piecesBody, hk, ihi h.of_framed]
        · simp [framed, shownText, pieces, hk, Piece.shown]
      | _ => exact ihi h.of_framed
    simp [shownTextAll, hshown, ih h.of_cons.2, Piece.shown_append]
  | block k inner ns ihi ih =>
    simp [shownTextAll, shownText, ihi h.of_block, ih h.of_cons.2, Piece.shown_append]

end Node

end Templating
