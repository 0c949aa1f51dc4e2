import Templating.Filter.Builtin
import Templating.Filter.Rendering
import Templating.Proofs.Node.Documents
import Templating.Proofs.Node.Kinds

/-!
# Rendering replaces filters

Rendering puts a text in the place of every outermost filter of a document and of every raw include
with filters, also in the documents loaded for it, and keeps everything else
(`FilterSet.rendered_iff`). So it leaves no filters, and rendering again does nothing.
-/

namespace Templating

/-- Rendering puts a text in the place of the node. -/
def Node.isFiltered : Node → Bool
  | .filter .. => true
  | .includesRaw _ _ us _ => !us.isEmpty
  | _ => false

open Node

theorem Node.isFiltered_setDocument (d : Option Node) (n : Node) :
    (n.setDocument d).isFiltered = n.isFiltered := by
  cases n <;> rfl

namespace FilterSet

variable {s : FilterSet}

/-! ### Equations -/

theorem renderAll_nil : s.renderAll [] = pure [] := by simp [renderAll]

theorem renderAll_cons (n : Node) (ns : List Node) :
    s.renderAll (n :: ns) = (do
      let n ← s.render n
      let ns ← s.renderAll ns
      pure (n :: ns)) := by
  simp [renderAll]

theorem renderAll_singleton (n : Node) :
    s.renderAll [n] = s.render n >>= fun n' ↦ pure [n'] := by
  simp [renderAll]

/-- A loaded document is rendered like a sequence of nodes. -/
theorem renderAll_toList (d : Option Node) :
    s.renderAll d.toList = s.renderDocument d >>= fun d' ↦ pure d'.toList := by
  cases d <;> simp [renderAll, renderDocument]

theorem renderAll_block (k : BlockHead) (ns : List Node) :
    s.renderAll [.block k ns] = (do
      let ns ← s.renderAll ns
      pure [.block k ns]) := by
  simp [renderAll, render]

/-- A leaf has its document rendered. -/
theorem renderAll_leaf {n : Node} (hn : n.isLeaf) (hf : n.isFiltered = false) :
    s.renderAll [n] = (do
      let d ← s.renderDocument n.document?
      pure [n.setDocument d]) := by
  cases n, hn using leaf_cases with
  | includesRaw f d us p =>
    have hus : us.isEmpty := by simpa [isFiltered] using hf
    simp [renderAll, render, hus, document?, setDocument]
  | _ => simp [renderAll, render, renderBody, renderDocument, document?, setDocument]

/-- Rendering goes through the frames that are no filters. -/
theorem renderAll_framed {F : Frame} {ns : List Node} (hF : (framed F ns).isFiltered = false) :
    s.renderAll [framed F ns] = (do
      let d ← s.renderDocument (framed F ns).document?
      let ns ← s.renderAll ns
      pure [(framed F ns).setDocument d]) := by
  cases F with
  | filter => cases hF
  | _ => simp [framed, renderAll, render, renderBody, renderDocument, document?, setDocument]

/-- A raw include with filters becomes the text that they make of the file. -/
theorem renderAll_includesRaw (f : Reference) (d : Option Node) {us : List FilterUse}
    (hus : us ≠ []) (p : Position) :
    s.renderAll [.includesRaw f d us p] = (do
      let t ← s.renderRaw f us p
      pure [.text t p]) := by
  simp [renderAll, render, hus]

/-- A filter becomes a text, perhaps after what it holds has been rendered. -/
theorem renderAll_filter (u : FilterUse) (ns : List Node) (p : Position) :
    ∃ x, (x = s.renderAll ns ∨ x = pure ns) ∧ s.renderAll [.filter u ⟨ns, p⟩] = (do
      let ns ← x
      let text ← s.applyWith u u.position.file (directText ns) none
      pure [.text text u.position]) := by
  have hrender : ∃ x, (x = s.renderAll ns ∨ x = pure ns) ∧ s.render (.filter u ⟨ns, p⟩) = (do
      let ns ← x
      let text ← s.applyWith u u.position.file (directText ns) none
      pure (.text text u.position)) := by
    cases ns with
    | nil => exact ⟨_, .inr rfl, rfl⟩
    | cons m rest =>
      cases m with
      | filter v b => exact ⟨_, .inl rfl, rfl⟩
      | _ => exact ⟨_, .inr rfl, rfl⟩
  obtain ⟨x, hx, hrender⟩ := hrender
  refine ⟨x, hx, ?_⟩
  rw [renderAll_singleton, hrender]
  simp only [bind_assoc, pure_bind]

theorem exists_frame_filter {F : Frame} {ns : List Node} (hF : (framed F ns).isFiltered) :
    ∃ u p, F = .filter u p := by
  cases F with
  | filter u p => exact ⟨u, p, rfl⟩
  | _ => cases hF

theorem exists_leaf_includesRaw {n : Node} (hn : n.isLeaf) (hf : n.isFiltered) :
    ∃ f d us p, n = .includesRaw f d us p ∧ us ≠ [] := by
  cases n, hn using leaf_cases with
  | includesRaw f d us p => exact ⟨f, d, us, p, rfl, by simpa [isFiltered] using hf⟩
  | _ => cases hf

theorem renderAll_singleton_eq_ok {n n' : Node} :
    (s.renderAll [n]).result = .ok [n'] ↔ (s.render n).result = .ok n' := by
  rw [renderAll_singleton, Logged.bind_result_eq_ok]
  simp only [Logged.pure_result_eq_ok, List.cons.injEq, and_true, exists_eq_right]

/-- Where rendering puts a text, the text stands where the node stood. -/
theorem exists_text_of_isFiltered {n n' : Node} (hf : n.isFiltered)
    (h : (s.render n).result = .ok n') : ∃ t, n' = .text t n.position := by
  have hall := renderAll_singleton_eq_ok.mpr h
  cases n with
  | filter u b =>
    obtain ⟨x, -, hx⟩ := renderAll_filter (s := s) u b.nodes b.position
    simp only [hx, Logged.bind_result_eq_ok, Logged.pure_result_eq_ok] at hall
    obtain ⟨_, -, t, -, ht⟩ := hall
    exact ⟨t, (List.singleton_inj.mp ht).symm⟩
  | includesRaw f d us p =>
    rw [renderAll_includesRaw f d (by simpa [isFiltered] using hf)] at hall
    simp only [Logged.bind_result_eq_ok, Logged.pure_result_eq_ok] at hall
    obtain ⟨t, -, ht⟩ := hall
    exact ⟨t, (List.singleton_inj.mp ht).symm⟩
  | _ => cases hf

/-! ### What rendering makes of nodes -/

/-- The second nodes are the first with a text in the place of every outermost filter and of every
raw include with filters, in the loaded documents too. The text is what the node by itself is
rendered to. -/
inductive Rendered (s : FilterSet) : List Node → List Node → Prop
  | nil : Rendered s [] []
  | cons {n n' : Node} {ns ns' : List Node} : Rendered s [n] [n'] → Rendered s ns ns' →
      Rendered s (n :: ns) (n' :: ns')
  /-- A text stands where the filter or the raw include stood. -/
  | text {n : Node} {t : String} : n.isFiltered →
      (s.render n).result = .ok (.text t n.position) → Rendered s [n] [.text t n.position]
  /-- Other leaves have their document rendered. -/
  | leaf {n : Node} {d : Option Node} : n.isLeaf → n.isFiltered = false →
      Rendered s n.document?.toList d.toList → Rendered s [n] [n.setDocument d]
  /-- Other nodes that carry a sequence have it rendered, and their document. -/
  | frame {F : Frame} {ns ns' : List Node} {d : Option Node} : (framed F ns).isFiltered = false →
      Rendered s (framed F ns).document?.toList d.toList → Rendered s ns ns' →
        Rendered s [framed F ns] [(framed F ns').setDocument d]
  | block {k : BlockHead} {ns ns' : List Node} : Rendered s ns ns' →
      Rendered s [.block k ns] [.block k ns']

/-- What a rendered document is rendered like. -/
theorem renderDocument_eq_ok {d d' : Option Node} :
    (s.renderDocument d).result = .ok d' ↔ (s.renderAll d.toList).result = .ok d'.toList := by
  rw [renderAll_toList, Logged.bind_result_eq_ok]
  refine ⟨fun h ↦ ⟨d', h, rfl⟩, fun ⟨d₀, h, hd⟩ ↦ ?_⟩
  have hd : d₀.toList = d'.toList := Logged.pure_result_eq_ok.mp hd
  obtain rfl : d₀ = d' := by
    cases d₀ <;> cases d' <;> simp_all
  exact h

theorem rendered_of_isFiltered {n : Node} {ns' : List Node} (hf : n.isFiltered)
    (h : (s.renderAll [n]).result = .ok ns') : s.Rendered [n] ns' := by
  rw [renderAll_singleton, Logged.bind_result_eq_ok] at h
  obtain ⟨n', hn, hns⟩ := h
  obtain rfl := Logged.pure_result_eq_ok.mp hns
  obtain ⟨t, rfl⟩ := exists_text_of_isFiltered hf hn
  exact .text hf hn

theorem rendered_of_renderAll {ns ns' : List Node} (h : (s.renderAll ns).result = .ok ns') :
    s.Rendered ns ns' := by
  induction ns using document_induction generalizing ns' with
  | nil =>
    rw [renderAll_nil, Logged.pure_result_eq_ok] at h
    exact h ▸ .nil
  | cons n ns ihn ih =>
    simp only [renderAll_cons n ns, Logged.bind_result_eq_ok, Logged.pure_result_eq_ok] at h
    obtain ⟨n', hn, ns', hns, rfl⟩ := h
    exact .cons (ihn (renderAll_singleton_eq_ok.mpr hn)) (ih hns)
  | leaf n hn ihd =>
    cases hf : n.isFiltered with
    | true => exact rendered_of_isFiltered hf h
    | false =>
      simp only [renderAll_leaf hn hf, Logged.bind_result_eq_ok, Logged.pure_result_eq_ok] at h
      obtain ⟨d, hd, rfl⟩ := h
      exact .leaf hn hf (ihd (renderDocument_eq_ok.mp hd))
  | frame F inner ihd ih =>
    cases hF : (framed F inner).isFiltered with
    | true => exact rendered_of_isFiltered hF h
    | false =>
      simp only [renderAll_framed hF, Logged.bind_result_eq_ok, Logged.pure_result_eq_ok] at h
      obtain ⟨d, hd, inner', hi, rfl⟩ := h
      exact .frame hF (ihd (renderDocument_eq_ok.mp hd)) (ih hi)
  | block k inner ih =>
    simp only [renderAll_block, Logged.bind_result_eq_ok, Logged.pure_result_eq_ok] at h
    obtain ⟨inner', hi, rfl⟩ := h
    exact .block (ih hi)

theorem Rendered.renderAll {ns ns' : List Node} (h : s.Rendered ns ns') :
    (s.renderAll ns).result = .ok ns' := by
  induction h with
  | nil => rw [renderAll_nil, Logged.pure_result_eq_ok]
  | cons _ _ ihn ih =>
    simp only [renderAll_cons, Logged.bind_result_eq_ok, Logged.pure_result_eq_ok]
    exact ⟨_, renderAll_singleton_eq_ok.mp ihn, _, ih, rfl⟩
  | text _ h => exact renderAll_singleton_eq_ok.mpr h
  | leaf hn hf _ ihd =>
    simp only [renderAll_leaf hn hf, Logged.bind_result_eq_ok, Logged.pure_result_eq_ok]
    exact ⟨_, renderDocument_eq_ok.mpr ihd, rfl⟩
  | frame hF _ _ ihd ih =>
    simp only [renderAll_framed hF, Logged.bind_result_eq_ok, Logged.pure_result_eq_ok]
    exact ⟨_, renderDocument_eq_ok.mpr ihd, _, ih, rfl⟩
  | block _ ih =>
    simp only [renderAll_block, Logged.bind_result_eq_ok, Logged.pure_result_eq_ok]
    exact ⟨_, ih, rfl⟩

/-- The relation tells what rendering gives. -/
theorem rendered_iff {ns ns' : List Node} :
    s.Rendered ns ns' ↔ (s.renderAll ns).result = .ok ns' :=
  ⟨Rendered.renderAll, rendered_of_renderAll⟩

theorem rendered_of_render {n n' : Node} (h : (s.render n).result = .ok n') :
    s.Rendered [n] [n'] :=
  rendered_of_renderAll (renderAll_singleton_eq_ok.mpr h)

/-! ### Kinds -/

/-- Rendered nodes hold no filter, nor do the documents loaded for them. -/
theorem Rendered.ofKinds {ns ns' : List Node} (h : s.Rendered ns ns') :
    OfKinds (· ≠ "Filter") ns' := by
  induction h with
  | nil => exact ofKinds_nil
  | cons _ _ ihn ih => exact ofKinds_append.mpr ⟨ihn, ih⟩
  | text => exact ofKinds_text.mpr (by simp)
  | @leaf n _ hn _ _ ihd =>
    refine .setDocument_leaf hn ?_ ihd
    cases n, hn using leaf_cases <;> simp [kind]
  | @frame F _ _ _ hF _ _ ihd ih =>
    refine .setDocument_framed ?_ ihd ih
    cases F with
    | filter => cases hF
    | _ => simp [framed, kind]
  | block _ ih => exact ofKinds_block.mpr ⟨by simp, ih⟩

/-- A rendered document holds no filter, nor do the documents it depends on. -/
theorem ofKinds_render {n n' : Node} (h : (s.render n).result = .ok n') :
    OfKinds (· ≠ "Filter") [n'] :=
  (rendered_of_render h).ofKinds

/-! ### Rendering again -/

theorem Rendered.isFiltered {ns ns' : List Node} (h : s.Rendered ns ns') :
    ∀ m ∈ listingAll ns', m.isFiltered = false := by
  induction h with
  | nil => simp
  | cons _ _ ihn ih =>
    rw [listingAll_cons, List.forall_mem_append]
    exact ⟨by simpa using ihn, ih⟩
  | text => simp [listing, Node.isFiltered]
  | @leaf n d hn hf _ ihd =>
    rw [listingAll_cons, listing_leaf (isLeaf_setDocument d hn), listingAll_nil, List.append_nil,
      List.forall_mem_cons]
    refine ⟨by rw [isFiltered_setDocument, hf], ?_⟩
    rcases document?_setDocument d n with hd | hd <;> rw [hd]
    · exact ihd
    · simp
  | @frame F _ ns' d hF _ _ ihd ih =>
    obtain ⟨F', hF'⟩ := exists_setDocument_framed d F
    rw [hF', listingAll_cons, listing_framed, listingAll_nil, List.append_nil,
      List.forall_mem_cons, List.forall_mem_append, ← hF']
    refine ⟨?_, ?_, ih⟩
    · rw [isFiltered_setDocument, ← hF]
      cases F <;> rfl
    · rcases document?_setDocument d (framed F ns') with hd | hd <;> rw [hd]
      · exact ihd
      · simp
  | block _ ih => simpa [Node.isFiltered] using ih

theorem render_eq_pure_of_renderAll {n : Node} (h : s.renderAll [n] = pure [n]) :
    s.render n = pure n := by
  rw [renderAll_singleton] at h
  generalize s.render n = x at h ⊢
  obtain ⟨log, e | n'⟩ := x
  · cases h
  · simp only [bind, Logged.bind, pure, Logged.pure, List.append_nil] at h ⊢
    simpa using h

/-- Without filters there is nothing to do. -/
theorem renderAll_eq_pure {ns : List Node} (h : ∀ m ∈ listingAll ns, m.isFiltered = false) :
    s.renderAll ns = pure ns := by
  have hdocument : ∀ d : Option Node,
      s.renderAll d.toList = pure d.toList → s.renderDocument d = pure d := by
    rintro (_ | d) hd
    · simp [renderDocument]
    · simp [renderDocument, render_eq_pure_of_renderAll hd]
  induction ns using document_induction with
  | nil => exact renderAll_nil
  | cons n ns ihn ih =>
    rw [listingAll_cons, List.forall_mem_append] at h
    rw [renderAll_cons, render_eq_pure_of_renderAll (ihn (by simpa using h.1)), ih h.2, pure_bind,
      pure_bind]
  | leaf n hn ihd =>
    rw [listingAll_cons, listing_leaf hn, listingAll_nil, List.append_nil,
      List.forall_mem_cons] at h
    rw [renderAll_leaf hn h.1, hdocument _ (ihd h.2), pure_bind, setDocument_document?]
  | frame F inner ihd ih =>
    rw [listingAll_cons, listing_framed, listingAll_nil, List.append_nil, List.forall_mem_cons,
      List.forall_mem_append] at h
    rw [renderAll_framed h.1, hdocument _ (ihd h.2.1), ih h.2.2, pure_bind, pure_bind,
      setDocument_document?]
  | block k inner ih =>
    rw [renderAll_block, ih (by simpa [Node.isFiltered] using h), pure_bind]

/-- Rendering a tree replaces by one text each, at the same place, the outermost filters and the
raw includes with filters, in nested sequences and loaded documents too, and keeps all else. None
of them remains, so rendering again, with whatever filters, calls none and changes nothing. -/
theorem rendering_replaces_filters {n n' : Node} (h : (s.render n).result = .ok n') :
    s.Rendered [n] [n'] ∧ (∀ m ∈ n'.listing, m.isFiltered = false) ∧
      ∀ s' : FilterSet, s'.render n' = pure n' := by
  have hrendered := rendered_of_render h
  have hfiltered := hrendered.isFiltered
  exact ⟨hrendered, by simpa using hfiltered,
    fun s' ↦ render_eq_pure_of_renderAll (renderAll_eq_pure hfiltered)⟩

/-- A filter around text on a line. -/
def loud (line : Nat) (ns : List Node) : Node :=
  .filter ⟨"upper", [], ⟨none, line⟩⟩ ⟨ns, ⟨none, line⟩⟩

/-- A filter that holds another, an include with filters in its document and in its nested
sequence, and a raw include with a filter. -/
def loudPage : Node :=
  .group ⟨[loud 1 [loud 2 [.text "a" ⟨none, 3⟩], .text "b" ⟨none, 4⟩],
    .includes (.unloaded "row.tmpl" none)
      (some (.group ⟨[loud 1 [.text "row" ⟨none, 2⟩], .yield ⟨none, 3⟩], ⟨none, 1⟩⟩))
      (some ⟨[loud 6 [.text "c" ⟨none, 7⟩]], ⟨none, 5⟩⟩) ⟨none, 5⟩,
    .includesRaw ⟨"d.txt", none, some ⟨"/d.txt"⟩, some [100], some "d"⟩ none
      [⟨"upper", [], ⟨none, 8⟩⟩] ⟨none, 8⟩,
    .text "e" ⟨none, 9⟩], ⟨none, 1⟩⟩

theorem rendering_replaces_filters_loudPage :
    ∃ n', (builtin.render loudPage).result = .ok n' ∧ builtin.Rendered [loudPage] [n'] ∧
      (∀ m ∈ n'.listing, m.isFiltered = false) ∧ (∀ s' : FilterSet, s'.render n' = pure n') ∧
      (n'.listing.filter (·.kind = "Text")).map (fun m ↦ (directText [m], m.position.line)) =
        [("AB", 1), ("ROW", 1), ("C", 6), ("D", 8), ("e", 9)] := by
  obtain ⟨log, n', h, htexts⟩ := Logged.exists_of_any (x := some (builtin.render loudPage))
    (P := fun n' ↦
      (n'.listing.filter (·.kind = "Text")).map (fun m ↦ (directText [m], m.position.line)) =
        [("AB", 1), ("ROW", 1), ("C", 6), ("D", 8), ("e", 9)]) (by decide +kernel)
  have hn' : (builtin.render loudPage).result = .ok n' := by rw [Option.some.inj h]
  obtain ⟨hrendered, hfiltered, hagain⟩ := rendering_replaces_filters hn'
  exact ⟨n', hn', hrendered, hfiltered, hagain, htexts⟩

end FilterSet

end Templating
