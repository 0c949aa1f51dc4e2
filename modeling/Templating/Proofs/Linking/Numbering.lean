import Templating.Node.Listing
import Templating.Proofs.Linking.Declaration
import Templating.Proofs.Linking.Yielding

/-!
# Numbers in a document

While a document is put together from what it includes, blocks with one number are copies of one
block: they have the same name, the same mode and, numbers and marks apart, the same content.
Numbers can be missing until the blocks of the document are declared.
-/

namespace Templating

/-- A head as it is read. -/
def BlockHead.fresh (name : String) (mode : Mode) (position : Position) : BlockHead :=
  ⟨name, mode, position, none, none, false⟩

/-- A reference to a template that has been read. Linking does not look at its text. -/
def Reference.loaded (path : String) : Reference :=
  { Reference.unloaded path none with text := some "" }

namespace Node

/-- The number of a named block. -/
def blockId? : Node → Option BlockId
  | .block h _ => h.id
  | _ => none

/-- No named block has a number, in the node or in the documents loaded for it. -/
def Unnumbered (n : Node) : Prop := ∀ m ∈ n.listing, m.blockId? = none

/-- No named block has a number, in the nodes or in the documents loaded for them. -/
def UnnumberedAll (ns : List Node) : Prop := ∀ m ∈ listingAll ns, m.blockId? = none

instance (n : Node) : Decidable n.Unnumbered :=
  inferInstanceAs (Decidable (∀ m ∈ n.listing, m.blockId? = none))

theorem unnumberedAll_cons {n : Node} {ns : List Node} :
    UnnumberedAll (n :: ns) ↔ n.Unnumbered ∧ UnnumberedAll ns := by
  simp only [UnnumberedAll, Unnumbered, listingAll, List.forall_mem_append]

theorem unnumberedAll_singleton {n : Node} : UnnumberedAll [n] ↔ n.Unnumbered := by
  simp [UnnumberedAll, Unnumbered, listingAll]

theorem unnumbered_group {ns : List Node} {p : Position} :
    Unnumbered (.group ⟨ns, p⟩) ↔ UnnumberedAll ns := by
  simp [Unnumbered, UnnumberedAll, listing, blockId?]

theorem unnumbered_block {h : BlockHead} {ns : List Node} :
    Unnumbered (.block h ns) ↔ h.id = none ∧ UnnumberedAll ns := by
  simp [Unnumbered, UnnumberedAll, listing, blockId?]

theorem unnumbered_inherits {f : Reference} {d : Node} {p : Position} :
    Unnumbered (.inherits f (some d) p) ↔ d.Unnumbered := by
  simp [Unnumbered, listing, listingDocument, blockId?]

theorem unnumbered_includes {f : Reference} {d : Node} {p : Position} :
    Unnumbered (.includes f (some d) none p) ↔ d.Unnumbered := by
  simp [Unnumbered, listing, listingDocument, listingBody, blockId?]

theorem unnumbered_includesWith {f : Reference} {d : Node} {ns : List Node} {p q : Position} :
    Unnumbered (.includes f (some d) (some ⟨ns, q⟩) p) ↔ d.Unnumbered ∧ UnnumberedAll ns := by
  simp only [Unnumbered, UnnumberedAll, listing, listingDocument, listingBody, blockId?,
    List.forall_mem_cons, List.forall_mem_append, true_and]

theorem UnnumberedAll.of_framed {F : Frame} {ns : List Node}
    (h : UnnumberedAll [framed F ns]) : UnnumberedAll ns := by
  intro m hm
  apply h m
  cases F <;> simp [framed, listing, listingAll, listingBody, hm]

theorem mem_blocksAll_of_mem_nodes {ns : List Node} {b c : NamedBlock} (hb : b ∈ blocksAll ns)
    (hc : c ∈ blocksAll b.nodes) : c ∈ blocksAll ns := by
  induction ns using forest_induction with
  | nil => cases hb
  | leaf n ns hn ih =>
    simp only [blocksAll_cons, blocks_leaf hn, List.nil_append] at hb ⊢
    exact ih hb
  | frame F inner ns ihi ih =>
    simp only [blocksAll_cons, blocks_framed, List.mem_append] at hb ⊢
    exact hb.imp ihi ih
  | block h inner ns ihi ih =>
    simp only [blocksAll_cons, blocks_block, List.cons_append, List.mem_cons,
      List.mem_append] at hb ⊢
    rcases hb with rfl | hb | hb
    · exact .inr (.inl hc)
    · exact .inr (.inl (ihi hb))
    · exact .inr (.inr (ih hb))

end Node

open Node

/-- Two blocks are copies of one, numbers and marks inside apart. -/
structure NamedBlock.Matches (b c : NamedBlock) : Prop where
  name : b.head.name = c.head.name
  mode : b.head.mode = c.head.mode
  nodes : bareAll b.nodes = bareAll c.nodes

/-! ### Expanded documents -/

/-- What expansion makes of unnumbered nodes when it draws the numbers after `s` up to `s'`. -/
structure Expanded (s : Nat) (ns : List Node) (s' : Nat) : Prop where
  le : s ≤ s'
  range : ∀ b ∈ blocksAll ns, ∀ i : Nat, b.head.id = some i → s < i ∧ i ≤ s'
  copies : ∀ b ∈ blocksAll ns, ∀ c ∈ blocksAll ns, ∀ i, b.head.id = some i →
    c.head.id = some i → b.Matches c

namespace Expanded

theorem of_no_blocks {ns : List Node} (h : blocksAll ns = []) {s s' : Nat} (hs : s ≤ s') :
    Expanded s ns s' where
  le := hs
  range := by simp [h]
  copies := by simp [h]

/-- Numbers drawn one after another are different. -/
theorem append {s mid s' : Nat} {ns ms : List Node} (hn : Expanded s ns mid)
    (hm : Expanded mid ms s') : Expanded s (ns ++ ms) s' where
  le := Nat.le_trans hn.le hm.le
  range := by
    intro b hb i hi
    have hle := hn.le
    have hle' := hm.le
    rw [blocksAll_append, List.mem_append] at hb
    rcases hb with hb | hb
    · have := hn.range b hb i hi
      omega
    · have := hm.range b hb i hi
      omega
  copies := by
    intro b hb c hc i hbi hci
    rw [blocksAll_append, List.mem_append] at hb hc
    rcases hb with hb | hb <;> rcases hc with hc | hc
    · exact hn.copies b hb c hc i hbi hci
    · have := hn.range b hb i hbi
      have := hm.range c hc i hci
      omega
    · have := hm.range b hb i hbi
      have := hn.range c hc i hci
      omega
    · exact hm.copies b hb c hc i hbi hci

theorem framed {s s' : Nat} {ns : List Node} (h : Expanded s ns s') (F : Frame) :
    Expanded s [framed F ns] s' where
  le := h.le
  range := by simpa using h.range
  copies := by simpa using h.copies

theorem block {s s' : Nat} {ns : List Node} (h : Expanded s ns s') {k : BlockHead}
    (hk : k.id = none) : Expanded s [.block k ns] s' where
  le := h.le
  range := by simpa [hk] using h.range
  copies := by simpa [hk] using h.copies

/-- An included document takes in the content of its include site. -/
theorem takeIn {s mid s' : Nat} {root : Block} {content : Option Block}
    (hc : ∀ c ∈ content, Expanded s c.nodes mid) (hle : s ≤ mid)
    (hr : Expanded mid root.nodes s') : Expanded s (root.takeIn content).nodes s' := by
  obtain ⟨φ, hφ, hmem⟩ := exists_mem_blocksAll_takeIn root content
  have hle' := hr.le
  refine ⟨by omega, fun b hb i hi ↦ ?_, fun b hb c hc' i hbi hci ↦ ?_⟩
  · rcases hmem b hb with ⟨xs, hxs, -⟩ | ⟨c, hcc, hbc⟩
    · have := hr.range _ hxs i hi
      omega
    · have := (hc c hcc).range b hbc i hi
      omega
  · rcases hmem b hb with ⟨xs, hxs, hbx⟩ | ⟨d, hd, hbd⟩ <;>
      rcases hmem c hc' with ⟨ys, hys, hcy⟩ | ⟨e, he, hce⟩
    · have hm := hr.copies _ hxs _ hys i hbi hci
      exact ⟨hm.name, hm.mode, by rw [hbx, hcy]; exact hφ xs ys hm.nodes⟩
    · have := hr.range _ hxs i hbi
      have := (hc e he).range c hce i hci
      omega
    · have := (hc d hd).range b hbd i hbi
      have := hr.range _ hys i hci
      omega
    · cases hd
      cases he
      exact (hc _ rfl).copies b hbd c hce i hbi hci

end Expanded

/-! ### Declared documents -/

/-- A document whose blocks have been declared, with numbers after `s` up to `s'`, and its
registry. -/
structure Declared (s : Nat) (ns : List Node) (r : Registry) (s' : Nat) : Prop where
  le : s ≤ s'
  numbered : ∀ b ∈ blocksAll ns, ∃ i : Nat, b.head.id = some i ∧ s < i ∧ i ≤ s'
  copies : ∀ b ∈ blocksAll ns, ∀ c ∈ blocksAll ns, b.head.id = c.head.id → b.Matches c
  registers : Registers ns r

theorem Expanded.numberedUpTo {s mid : Nat} {ns : List Node} (h : Expanded s ns mid) :
    NumberedUpTo mid ns :=
  fun b hb i hi ↦ (h.range b hb i hi).2

theorem Expanded.declare {s mid : Nat} {ns : List Node} (h : Expanded s ns mid) :
    Declared s (declareAll ns (mid, .empty)).1 (declareAll ns (mid, .empty)).2.2
      (declareAll ns (mid, .empty)).2.1 := by
  have hd := declareAll_declares .empty h.numberedUpTo
  have hle := h.le
  have hle' := hd.le
  refine ⟨by omega, fun b hb ↦ ?_, fun b hb c hc hid ↦ ?_, declareAll_registers ns mid⟩
  · obtain ⟨i, hi, ⟨c, hc, he, -⟩ | hr⟩ := hd.block b hb
    · have := h.range c hc i (he ▸ hi)
      exact ⟨i, hi, by omega⟩
    · exact ⟨i, hi, by omega⟩
  · obtain ⟨i, hi, ⟨b₀, hb₀, heb, hnb⟩ | hr⟩ := hd.block b hb
    · obtain ⟨j, hj, ⟨c₀, hc₀, hec, hnc⟩ | hr'⟩ := hd.block c hc
      · have hm := h.copies b₀ hb₀ c₀ hc₀ i (heb ▸ hi) (hec ▸ hid ▸ hi)
        exact ⟨heb ▸ hec ▸ hm.name, heb ▸ hec ▸ hm.mode, hnb ▸ hnc ▸ hm.nodes⟩
      · -- an old number is no new one
        have hold := (h.range b₀ hb₀ i (heb ▸ hi)).2
        rw [← hid, hi, Option.some_inj] at hj
        omega
    · have he := hd.eq_of_lt hb hc hi (hid ▸ hi) hr.1
      exact he ▸ ⟨rfl, rfl, rfl⟩

theorem Expanded.bareAll_declareAll {s mid : Nat} {ns : List Node} (h : Expanded s ns mid) :
    bareAll (declareAll ns (mid, .empty)).1 = bareAll ns :=
  (declareAll_declares .empty h.numberedUpTo).bare

/-- The numbers of blocks were drawn for the document. -/
theorem Declared.range {s s' : Nat} {ns : List Node} {r : Registry} (h : Declared s ns r s')
    {b : NamedBlock} (hb : b ∈ blocksAll ns) {i : Nat} (hi : b.head.id = some i) :
    s < i ∧ i ≤ s' := by
  obtain ⟨j, hj, hr⟩ := h.numbered b hb
  rw [hi, Option.some_inj] at hj
  exact hj ▸ hr

/-- Registered numbers were drawn for the document. -/
theorem Declared.lt_of_mem_get {s s' : Nat} {ns : List Node} {r : Registry}
    (h : Declared s ns r s') {m : String} {i : Nat} (hi : i ∈ r.get m) : s < i ∧ i ≤ s' := by
  obtain ⟨b, hb, -, -, hbi⟩ := (h.registers.mem_get m i).mp hi
  exact h.range hb hbi

/-- The registry tells the name and the mode of a block. -/
theorem Declared.mem_get_iff {s s' : Nat} {ns : List Node} {r : Registry}
    (h : Declared s ns r s') {b : NamedBlock} (hb : b ∈ blocksAll ns) {i : Nat}
    (hi : b.head.id = some i) (m : String) :
    i ∈ r.get m ↔ b.head.name = m ∧ b.head.mode = .replace := by
  rw [h.registers.mem_get]
  constructor
  · rintro ⟨c, hc, hname, hmode, hci⟩
    have hm := h.copies b hb c hc (hi.trans hci.symm)
    exact ⟨hm.name.trans hname, hm.mode.trans hmode⟩
  · rintro ⟨hname, hmode⟩
    exact ⟨b, hb, hname, hmode, hi⟩

end Templating
