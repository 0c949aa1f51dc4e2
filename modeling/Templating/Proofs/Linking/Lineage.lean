import Templating.Proofs.Linking.Flattening
import Templating.Proofs.Linking.Soundness

/-!
# Lineage of linked documents

The lineage of a block consists of blocks of its own name, with greater numbers, which were
declared in ancestors of its document. It runs from the oldest ancestor to the nearest one, and
holds the lineage of each of its blocks. The numbers of a chain rise from each document to the one
it inherits from, and a lineage is the flattened list of the targets that its name had there.
-/

namespace Templating

open Node

/-- The blocks that the link of a document declares along its chain, those of the document first.
`last` is the last number drawn before. -/
def Node.declarations : Node → Nat → Except TemplateError (List NamedBlock)
  | .group ⟨.inherits _ (some d) _ :: rest, _⟩, last =>
    match expandAll rest last with
    | .error e => .error e
    | .ok (ns, last) =>
      match declarations d (declareAll ns (last, .empty)).2.1 with
      | .error e => .error e
      | .ok bs => .ok (blocksAll (declareAll ns (last, .empty)).1 ++ bs)
  | .group ⟨ns, _⟩, last =>
    match expandAll ns last with
    | .error e => .error e
    | .ok (ns, last) => .ok (blocksAll (declareAll ns (last, .empty)).1)
  | _, _ => .ok []
  termination_by structural d => d

/-- The number was given to a replace-mode block of the name. -/
def Given (bs : List NamedBlock) (name : String) (i : BlockId) : Prop :=
  ∃ b ∈ bs, b.head.name = name ∧ b.head.mode = .replace ∧ b.head.id = some i

/-- What a registry says about the blocks that a link declared. -/
structure Registry.Genealogy (r : Registry) (bs : List NamedBlock) : Prop where
  /-- A number tells the name and the mode of its block. -/
  tells : ∀ b ∈ bs, ∀ c ∈ bs, b.head.id = c.head.id →
    b.head.name = c.head.name ∧ b.head.mode = c.head.mode
  get_nodup : ∀ m, (r.get m).Nodup
  get_given : ∀ m, ∀ i ∈ r.get m, Given bs m i
  parents_ne_nil : ∀ i ts, r.parentsOf? i = some ts → ts ≠ []
  parents_nodup : ∀ i ts, r.parentsOf? i = some ts → ts.Nodup
  parents_given : ∀ i ts, r.parentsOf? i = some ts → ∃ b ∈ bs, b.head.id = some i ∧
    ∀ p ∈ ts, i < p ∧ Given bs b.head.name p
  /-- The lineage of an ancestor stands before the ancestor. -/
  parents_closed : ∀ i ts, r.parentsOf? i = some ts → ∀ p ∈ ts, ∀ us, r.parentsOf? p = some us →
    ∀ q ∈ us, [q, p].Sublist ts

/-! ### Consequences -/

namespace Registry.Genealogy

variable {r : Registry} {bs : List NamedBlock}

theorem lt_of_step (h : r.Genealogy bs) {i p : BlockId} (hp : r.Step i p) : i < p := by
  obtain ⟨ts, hts, hpt⟩ := hp
  obtain ⟨b, -, -, hb⟩ := h.parents_given i ts hts
  exact (hb p hpt).1

/-- Lineage does not run in circles. -/
theorem not_transGen_self (h : r.Genealogy bs) (i : BlockId) : ¬ Relation.TransGen r.Step i i := by
  have hlt : ∀ j, Relation.TransGen r.Step i j → i < j := by
    intro j hj
    induction hj with
    | single hp => exact h.lt_of_step hp
    | tail _ hp ih => exact Nat.lt_trans ih (h.lt_of_step hp)
  exact fun hi ↦ Nat.lt_irrefl i (hlt i hi)

/-- An ancestor has the name of the block. -/
theorem given_of_step (h : r.Genealogy bs) {m : String} {i p : BlockId} (hi : Given bs m i)
    (hp : r.Step i p) : Given bs m p := by
  obtain ⟨ts, hts, hpt⟩ := hp
  obtain ⟨b, hb, hbi, hgiven⟩ := h.parents_given i ts hts
  obtain ⟨c, hc, hname, -, hci⟩ := hi
  obtain ⟨hsame, -⟩ := h.tells b hb c hc (hbi.trans hci.symm)
  exact hname ▸ hsame ▸ (hgiven p hpt).2

theorem given_of_mem_targets (h : r.Genealogy bs) {m : String} {i : BlockId}
    (hi : i ∈ r.targets m) : Given bs m i := by
  obtain ⟨j, hj, hr⟩ := (Registry.mem_flatten_iff _ _ _).mp hi
  induction hr with
  | refl => exact h.get_given m j hj
  | tail hr hp ih =>
    exact h.given_of_step (ih ((Registry.mem_flatten_iff _ _ _).mpr ⟨j, hj, hr⟩)) hp

/-- A block is a target of one name. -/
theorem name_eq_of_mem_targets (h : r.Genealogy bs) {m m' : String} {i : BlockId}
    (hi : i ∈ r.targets m) (hi' : i ∈ r.targets m') : m = m' := by
  obtain ⟨b, hb, hname, -, hbi⟩ := h.given_of_mem_targets hi
  obtain ⟨c, hc, hname', -, hci⟩ := h.given_of_mem_targets hi'
  obtain ⟨hsame, -⟩ := h.tells b hb c hc (hbi.trans hci.symm)
  exact hname.symm.trans (hsame.trans hname')

end Registry.Genealogy

/-! ### A document without a parent -/

theorem Registry.nodup_get_enter {r : Registry} (hr : ∀ m, (r.get m).Nodup) (h : BlockHead)
    (m : String) : ((r.enter h).get m).Nodup := by
  have hregister : ∀ id, ((r.register h.name id).get m).Nodup := by
    intro id
    rw [Registry.get_register]
    split
    · split
      · exact hr h.name
      · next hid =>
        exact List.nodup_append.mpr ⟨hr h.name, by simp, by rintro j hj k hk rfl; simp_all⟩
    · exact hr m
  unfold Registry.enter
  split
  · split
    · exact hregister _
    · exact hr m
  · exact hr m

/-- A document registers each number once. -/
theorem Node.nodup_get_declareAll (ns : List Node) (last : Nat) (m : String) :
    ((declareAll ns (last, .empty)).2.2.get m).Nodup := by
  rw [declareAll_registry]
  generalize blocksAll (declareAll ns (last, .empty)).1 = bs
  have hempty : ∀ m, (Registry.empty.get m).Nodup := fun _ ↦ List.nodup_nil
  generalize Registry.empty = r at hempty ⊢
  induction bs generalizing r with
  | nil => exact hempty m
  | cons b bs ih => exact ih _ (Registry.nodup_get_enter hempty b.head)

theorem Declared.genealogy {s s' : Nat} {ns : List Node} {r : Registry} (h : Declared s ns r s')
    (hn : ∀ m, (r.get m).Nodup) : r.Genealogy (blocksAll ns) := by
  have hnone : ∀ i, r.parentsOf? i = none := by
    intro i
    simp [Registry.parentsOf?, h.registers.parents]
  have hno : ∀ i ts, r.parentsOf? i ≠ some ts := by simp [hnone]
  refine ⟨fun b hb c hc hid ↦ ?_, hn, fun m i hi ↦ (h.registers.mem_get m i).mp hi,
    fun i ts hts ↦ ?_, fun i ts hts ↦ ?_, fun i ts hts ↦ ?_, fun i ts hts ↦ ?_⟩
  · exact ⟨(h.copies b hb c hc hid).name, (h.copies b hb c hc hid).mode⟩
  all_goals exact absurd hts (hno i ts)

/-! ### A document with a parent -/

theorem Given.mono {bs cs : List NamedBlock} (hsub : bs ⊆ cs) {m : String} {i : BlockId}
    (h : Given bs m i) : Given cs m i := by
  obtain ⟨b, hb, hgiven⟩ := h
  exact ⟨b, hsub hb, hgiven⟩

section

variable {s s' s'' : Nat} {child : List Node} {r : Registry} {parent : Linked}
  {gs : List Generation} {M : List Node × Merging} {bs : List NamedBlock}

/-- The parent's blocks keep the lineages they had. -/
theorem Registry.LiesOver.parentsOf?_overlay_of_lt {c r : Registry} (h : c.LiesOver r s) {i : Nat}
    (hi : s < i) : (r.overlay c).parentsOf? i = r.parentsOf? i := by
  have hnone : c.parentsOf? i = none := by
    rw [← Option.not_isSome_iff_eq_none]
    intro hs
    have := h.parents_le i hs
    omega
  rw [Registry.parentsOf?_overlay, hnone, Option.none_or]

/-- A lineage after a merge consists of the parent's targets of a name the child declares, or was
there in the parent. -/
theorem Merged.parentsOf?_cases (hM : Merged s child r s' parent gs M) {i : Nat}
    {ts : List BlockId}
    (h : (parent.declared.overlay M.2.lineage).parentsOf? i = some ts) :
    (∃ b ∈ blocksAll child, b.head.id = some i ∧ parent.declared.targets b.head.name ≠ [] ∧
      ts = parent.declared.targets b.head.name) ∨ parent.declared.parentsOf? i = some ts := by
  rw [Registry.parentsOf?_overlay] at h
  cases hc : M.2.lineage.parentsOf? i with
  | none => exact .inr (by simpa [hc] using h)
  | some us =>
    rw [hc, Option.some_or] at h
    exact .inl (hM.lineage i ts (hc.trans h))

/-- The blocks of the child come before those of the chain it is merged into. -/
theorem Merged.genealogy (hM : Merged s child r s' parent gs M) (hc : Declared s child r s')
    (hn : ∀ m, (r.get m).Nodup) (hbs : ∀ b ∈ bs, ∃ i : Nat, b.head.id = some i ∧ s' < i)
    (hp : parent.declared.Genealogy bs) :
    (parent.declared.overlay M.2.lineage).Genealogy (blocksAll child ++ bs) := by
  have hchild : blocksAll child ⊆ blocksAll child ++ bs := List.subset_append_left _ _
  have hparent : bs ⊆ blocksAll child ++ bs := List.subset_append_right _ _
  have hacyclic := hp.not_transGen_self
  refine ⟨fun b hb c hc' hid ↦ ?_, fun m ↦ ?_, fun m i hi ↦ ?_, fun i ts hts ↦ ?_,
    fun i ts hts ↦ ?_, fun i ts hts ↦ ?_, fun i ts hts p hpt us hus q hq ↦ ?_⟩
  · rcases List.mem_append.mp hb with hb | hb <;> rcases List.mem_append.mp hc' with hc' | hc'
    · exact ⟨(hc.copies b hb c hc' hid).name, (hc.copies b hb c hc' hid).mode⟩
    · obtain ⟨j, hj, hlt⟩ := hbs c hc'
      have hle := (hc.range hb (hid.trans hj)).2
      omega
    · obtain ⟨i, hi, hlt⟩ := hbs b hb
      have hle := (hc.range hc' (hid.symm.trans hi)).2
      omega
    · exact hp.tells b hb c hc' hid
  · rw [Registry.get_overlay hM.liesOver.namesHaveBlocks, hM.get]
    split
    · exact hp.get_nodup m
    · exact hn m
  · rw [Registry.get_overlay hM.liesOver.namesHaveBlocks, hM.get] at hi
    split at hi
    · exact (hp.get_given m i hi).mono hparent
    · exact Given.mono hchild ((hc.registers.mem_get m i).mp hi)
  · rcases hM.parentsOf?_cases hts with ⟨b, -, -, hne, rfl⟩ | hts
    · exact hne
    · exact hp.parents_ne_nil i ts hts
  · rcases hM.parentsOf?_cases hts with ⟨b, -, -, -, rfl⟩ | hts
    · exact Registry.flatten_nodup _ _
    · exact hp.parents_nodup i ts hts
  · rcases hM.parentsOf?_cases hts with ⟨b, hb, hbi, -, rfl⟩ | hts
    · refine ⟨b, hchild hb, hbi, fun p hpt ↦ ⟨?_, (hp.given_of_mem_targets hpt).mono hparent⟩⟩
      exact Nat.lt_of_le_of_lt (hc.range hb hbi).2 (hM.liesOver.lt_target b.head.name p hpt)
    · obtain ⟨b, hb, hbi, hgiven⟩ := hp.parents_given i ts hts
      exact ⟨b, hparent hb, hbi, fun p hpt ↦ ⟨(hgiven p hpt).1, (hgiven p hpt).2.mono hparent⟩⟩
  · -- an ancestor is one of the parent's blocks, so its lineage is the one it has there
    rcases hM.parentsOf?_cases hts with ⟨b, -, -, -, rfl⟩ | hts
    · rw [hM.liesOver.parentsOf?_overlay_of_lt (hM.liesOver.lt_target _ p hpt)] at hus
      exact Registry.flatten_ancestorsFirst (fun j _ ↦ hacyclic j) p hpt q ⟨us, hus, hq⟩
    · rw [hM.liesOver.parentsOf?_overlay_of_lt (hM.liesOver.lt_step i p ⟨ts, hts, hpt⟩).2] at hus
      exact hp.parents_closed i ts hts p hpt us hus q hq

end

/-! ### Linked documents -/

theorem Node.declarations_group {ns ns' : List Node}
    (h : ∀ n ∈ ns.head?, n.isInherits = false) {s s' : Nat}
    (hns : expandAll ns s = .ok (ns', s')) (p : Position) :
    declarations (.group ⟨ns, p⟩) s = .ok (blocksAll (declareAll ns' (s', .empty)).1) := by
  match ns, h with
  | [], _ => simp [declarations, hns]
  | .inherits f d q :: rest, h => simp [isInherits] at h
  | .group _ :: _, _ | .block .. :: _, _ | .includes .. :: _, _ | .includesRaw .. :: _, _
  | .mixin .. :: _, _ | .filter .. :: _, _ | .yield _ :: _, _ | .text .. :: _, _
  | .tag .. :: _, _ => simp [declarations, hns]

theorem Node.declarations_inherits {f : Reference} {d : Node} {q p : Position}
    {rest ns : List Node} {s s' : Nat} {bs : List NamedBlock}
    (hns : expandAll rest s = .ok (ns, s'))
    (hbs : d.declarations (declareAll ns (s', .empty)).2.1 = .ok bs) :
    declarations (.group ⟨.inherits f (some d) q :: rest, p⟩) s =
      .ok (blocksAll (declareAll ns (s', .empty)).1 ++ bs) := by
  simp only [declarations, hns, hbs]

/-- The registry of a link under way. All blocks of the chain have numbers that it drew. -/
theorem exists_genealogy {d : Node} {s s' : Nat} {l : Linked} (hd : d.Unnumbered)
    (h : linkNode d s = .ok (l, s')) :
    ∃ bs, d.declarations s = .ok bs ∧ (∀ b ∈ bs, ∃ i : Nat, b.head.id = some i ∧ s < i) ∧
      l.declared.Genealogy bs := by
  refine linkNode_induction (motive := fun d s l _ ↦ d.Unnumbered → ∃ bs,
    d.declarations s = .ok bs ∧ (∀ b ∈ bs, ∃ i : Nat, b.head.id = some i ∧ s < i) ∧
      l.declared.Genealogy bs) ?base ?inherit d h hd
  case base =>
    intro ns p s ns' s' hhead hns hd
    have hc := (linkCases_sound.expandAll ns hns (unnumbered_group.mp hd)).declare
    refine ⟨_, declarations_group hhead hns p, fun b hb ↦ ?_,
      hc.genealogy (nodup_get_declareAll ns' s')⟩
    obtain ⟨i, hi, hlt, -⟩ := hc.numbered b hb
    exact ⟨i, hi, hlt⟩
  case inherit =>
    intro f d q ns p s ns' s' overrides parent s'' l hns hparent ih hl hd
    obtain ⟨hud, hun⟩ := unnumberedAll_cons.mp (unnumbered_group.mp hd)
    have hc := (linkCases_sound.expandAll ns hns hun).declare
    obtain ⟨bs, hbs, hnumbers, hg⟩ := ih (unnumbered_inherits.mp hud)
    obtain ⟨gs, -, hp⟩ := Linked.sound (unnumbered_inherits.mp hud) hparent
    obtain ⟨-, rfl⟩ := Linked.inherit_eq_ok.mp hl
    refine ⟨_, declarations_inherits hns hbs, ?_,
      (hp.merged hc).genealogy hc (nodup_get_declareAll ns' s') hnumbers hg⟩
    rw [List.forall_mem_append]
    refine ⟨fun b hb ↦ ?_, fun b hb ↦ ?_⟩
    · obtain ⟨i, hi, hlt, -⟩ := hc.numbered b hb
      exact ⟨i, hi, hlt⟩
    · obtain ⟨i, hi, hlt⟩ := hnumbers b hb
      exact ⟨i, hi, Nat.lt_of_le_of_lt hc.le hlt⟩

/-- In the registry of a linked document each number is listed once, under the name of the
replace-mode block it was given to. A lineage is not empty, holds no block twice, and consists of
blocks with greater numbers and the name of its own block; before each of them stands the lineage
of that one. So lineage runs in no circle. -/
theorem Linked.genealogy_of_link {d : Node} {l : Linked} (hd : d.Unnumbered) (h : link d = .ok l) :
    ∃ bs, d.declarations 0 = .ok bs ∧ l.declared.Genealogy bs ∧
      ∀ i, ¬ Relation.TransGen l.declared.Step i i := by
  obtain ⟨s', hl⟩ := link_eq_ok.mp h
  obtain ⟨bs, hbs, -, hg⟩ := exists_genealogy hd hl
  exact ⟨bs, hbs, hg, hg.not_transGen_self⟩

/-- Three documents that override one block. -/
def inheritedDocument : Node :=
  let base := .group ⟨[.block (.fresh "n" .replace ⟨none, 1⟩) [.text "base" ⟨none, 1⟩]], ⟨none, 1⟩⟩
  let middle := .group ⟨[.inherits (.loaded "base.tmpl") (some base) ⟨none, 1⟩,
    .block (.fresh "n" .replace ⟨none, 1⟩) [.text "middle" ⟨none, 1⟩]], ⟨none, 1⟩⟩
  .group ⟨[.inherits (.loaded "middle.tmpl") (some middle) ⟨none, 1⟩,
    .block (.fresh "n" .append ⟨none, 1⟩) [.text "top" ⟨none, 1⟩]], ⟨none, 1⟩⟩

theorem genealogy_inheritedDocument :
    ∃ l, inheritedDocument.Unnumbered ∧ link inheritedDocument = .ok l ∧
      l.declared.get "n" = [2] ∧ l.declared.parentsOf? 1 = some [3, 2] ∧
      l.declared.parentsOf? 2 = some [3] ∧
      ∃ bs, inheritedDocument.declarations 0 = .ok bs ∧ l.declared.Genealogy bs ∧
        ∀ i, ¬ Relation.TransGen l.declared.Step i i := by
  have hd : inheritedDocument.Unnumbered := by decide
  exact ⟨_, hd, rfl, by decide, by decide, by decide, Linked.genealogy_of_link hd rfl⟩

end Templating
