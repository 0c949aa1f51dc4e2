import Templating.Proofs.Linking.Ancestors

/-!
# Order of flattened blocks

A flattened list holds no block twice. Each block stands behind the ancestors recorded for it, as
long as none of the blocks found is an ancestor of itself. So flattening lists the blocks that an
unbounded search reaches, ancestors first (`Registry.flatten_ancestor_closure`).
-/

namespace Templating.Registry

/-- Every block of the list stands behind the ancestors recorded for it. -/
def AncestorsFirst (r : Registry) (ids : List BlockId) : Prop :=
  ∀ i ∈ ids, ∀ p, r.Step i p → [p, i].Sublist ids

section

variable {r : Registry} {ids : List BlockId} {s t : Search}

theorem AncestorsFirst.concat {i : BlockId} (h : r.AncestorsFirst ids)
    (hi : ∀ p, r.Step i p → p ∈ ids) : r.AncestorsFirst (ids ++ [i]) := by
  intro j hj p hp
  rcases List.mem_append.mp hj with hj | hj
  · exact (h j hj p hp).trans (List.sublist_append_left ids [i])
  · rw [List.mem_singleton] at hj
    subst hj
    exact (List.singleton_sublist.mpr (hi p hp)).append (.refl [j])

theorem Searches.found_subset (h : Searches r ids s t) (hs : s.found ⊆ s.seen) :
    t.found ⊆ t.seen := by
  intro j hj
  rcases (h.found j).mp hj with hj | hj
  · exact h.keeps j (hs hj)
  · exact hj.1

namespace Traverses

/-- A block is left behind once. -/
theorem nodup (h : Traverses r ids s t) (hs : s.found ⊆ s.seen) (hn : s.found.Nodup) :
    t.found.Nodup := by
  induction h with
  | nil => exact hn
  | seen _ _ ih => exact ih hs hn
  | @new id ids s t u hid up _ ihu ih =>
    have hsub := up.searches.found_subset fun j hj ↦ List.mem_cons_of_mem id (hs hj)
    have hnot : id ∉ t.found := by
      rw [up.searches.found id]
      rintro (hj | ⟨-, hj⟩)
      · exact hid (hs hj)
      · exact hj List.mem_cons_self
    apply ih
    · exact List.append_subset.mpr ⟨hsub, by simpa using up.searches.keeps id List.mem_cons_self⟩
    · refine List.nodup_append.mpr
        ⟨ihu (fun j hj ↦ List.mem_cons_of_mem id (hs hj)) hn, by simp, ?_⟩
      rintro j hj k hk rfl
      exact hnot (List.mem_singleton.mp hk ▸ hj)

/-- The blocks met and not yet left behind are those that the search came through, so all of them
descend from the block it is about to meet. -/
theorem ancestorsFirst (h : Traverses r ids s t) (hs : s.found ⊆ s.seen)
    (hf : r.AncestorsFirst s.found)
    (hopen : ∀ j ∈ s.seen, j ∉ s.found → ∀ i ∈ ids, Relation.TransGen r.Step j i)
    (hac : ∀ i ∈ ids, ∀ j, r.Reaches i j → ¬ Relation.TransGen r.Step j j) :
    r.AncestorsFirst t.found := by
  induction h with
  | nil => exact hf
  | seen _ _ ih =>
    exact ih hs hf (fun j hj hn i hi ↦ hopen j hj hn i (List.mem_cons_of_mem _ hi))
      fun i hi ↦ hac i (List.mem_cons_of_mem _ hi)
  | @new id ids s t u hid up _ ihu ih =>
    have hup : ∀ p, p ∈ (r.parentsOf? id).getD [] ↔ r.Step id p := by
      intro p
      cases hp : r.parentsOf? id <;> simp [Step, hp]
    have hsub : s.found ⊆ id :: s.seen := fun j hj ↦ List.mem_cons_of_mem id (hs hj)
    have hopen' : ∀ j ∈ t.seen, j ∉ t.found → j = id ∨ (j ∈ s.seen ∧ j ∉ s.found) := by
      intro j hj hn
      rw [up.searches.found j, not_or] at hn
      have hmet : j ∈ id :: s.seen := Classical.byContradiction fun hs ↦ hn.2 ⟨hj, hs⟩
      exact (List.mem_cons.mp hmet).imp_right fun hs ↦ ⟨hs, hn.1⟩
    have hself : ¬ Relation.TransGen r.Step id id := hac id List.mem_cons_self id .refl
    have hanc : r.AncestorsFirst t.found := by
      apply ihu hsub hf
      · intro j hj hn p hp
        rcases List.mem_cons.mp hj with rfl | hj
        · exact .single ((hup p).mp hp)
        · exact (hopen j hj hn id List.mem_cons_self).tail ((hup p).mp hp)
      · exact fun p hp j hr ↦ hac id List.mem_cons_self j (.head ((hup p).mp hp) hr)
    have hleft : ∀ p, r.Step id p → p ∈ t.found := by
      intro p hp
      refine Classical.byContradiction fun hn ↦ ?_
      rcases hopen' p (up.searches.starts p ((hup p).mpr hp)) hn with rfl | ⟨hj, hn⟩
      · exact hself (.single hp)
      · exact hself (.head hp (hopen p hj hn id List.mem_cons_self))
    apply ih
    · exact List.append_subset.mpr ⟨up.searches.found_subset hsub,
        by simpa using up.searches.keeps id List.mem_cons_self⟩
    · exact hanc.concat hleft
    · intro j hj hn i hi
      simp only [List.mem_append, List.mem_singleton, not_or] at hn
      obtain ⟨hj, hn⟩ := (hopen' j hj hn.1).resolve_left hn.2
      exact hopen j hj hn i (List.mem_cons_of_mem id hi)
    · exact fun i hi ↦ hac i (List.mem_cons_of_mem id hi)

end Traverses

end

theorem flatten_nodup (r : Registry) (ids : List BlockId) : (r.flatten ids).Nodup := by
  obtain ⟨t, ht, hfound⟩ := r.exists_traverses_flatten ids
  exact hfound ▸ ht.nodup (List.Subset.refl _) List.nodup_nil

theorem flatten_ancestorsFirst {r : Registry} {ids : List BlockId}
    (h : ∀ j ∈ r.flatten ids, ¬ Relation.TransGen r.Step j j) :
    r.AncestorsFirst (r.flatten ids) := by
  obtain ⟨t, ht, hfound⟩ := r.exists_traverses_flatten ids
  rw [← hfound]
  apply ht.ancestorsFirst (List.Subset.refl _)
  · simp [AncestorsFirst]
  · simp
  · exact fun i hi j hr ↦ h j ((r.mem_flatten_iff ids j).mpr ⟨i, hi, hr⟩)

/-! ### Ancestors of ancestors -/

/-- Of a list without repetition, what stands behind a second member stands behind the first. -/
theorem sublist_pair_trans {l : List BlockId} {a b c : BlockId} (hl : l.Nodup)
    (hab : [a, b].Sublist l) (hbc : [b, c].Sublist l) : [a, c].Sublist l := by
  obtain ⟨before, behind, rfl, ha, hb⟩ := List.cons_sublist_iff.mp hab
  have hnot : b ∉ before := fun hmem ↦
    (List.nodup_append.mp hl).2.2 b hmem b (List.singleton_sublist.mp hb) rfl
  have hc : c ∈ behind := by
    obtain ⟨x, y, hxy, hx, hy⟩ := List.sublist_append_iff.mp hbc
    cases x with
    | nil =>
      rw [List.nil_append] at hxy
      exact hy.subset (hxy ▸ by simp)
    | cons d x =>
      obtain ⟨rfl, -⟩ := List.cons.inj hxy
      exact absurd (hx.subset List.mem_cons_self) hnot
  exact (List.singleton_sublist.mpr ha).append (List.singleton_sublist.mpr hc)

/-- What holds of single steps holds of all of them: every block stands behind all its
ancestors. -/
theorem AncestorsFirst.sublist_of_transGen {r : Registry} {ids : List BlockId}
    (h : r.AncestorsFirst ids) (hn : ids.Nodup)
    (hclosed : ∀ i ∈ ids, ∀ p, r.Step i p → p ∈ ids) {i j : BlockId} (hi : i ∈ ids)
    (hr : Relation.TransGen r.Step i j) : [j, i].Sublist ids := by
  suffices j ∈ ids ∧ [j, i].Sublist ids from this.2
  induction hr with
  | single hp => exact ⟨hclosed i hi _ hp, h i hi _ hp⟩
  | tail _ hq ih => exact ⟨hclosed _ ih.1 _ hq, sublist_pair_trans hn (h _ ih.1 _ hq) ih.2⟩

/-- Whatever lineages are recorded, the search for ancestors comes to an end, and what it leaves
behind are the given blocks and their ancestors, each once. If none of them is an ancestor of
itself, each stands behind all its ancestors. -/
theorem flatten_ancestor_closure (r : Registry) (ids : List BlockId) :
    (∃ t, Traverses r ids ⟨[], []⟩ t ∧ (∀ u, Traverses r ids ⟨[], []⟩ u → u = t) ∧
      t.found = r.flatten ids) ∧
    (r.flatten ids).Nodup ∧
    (∀ j, j ∈ r.flatten ids ↔ ∃ i ∈ ids, r.Reaches i j) ∧
    ((∀ i ∈ ids, ∀ j, r.Reaches i j → ¬ Relation.TransGen r.Step j j) →
      ∀ i ∈ r.flatten ids, ∀ j, Relation.TransGen r.Step i j →
        [j, i].Sublist (r.flatten ids)) := by
  obtain ⟨t, ht, hfound⟩ := r.exists_traverses_flatten ids
  refine ⟨⟨t, ht, fun _ hu ↦ hu.unique ht, hfound⟩, r.flatten_nodup ids, r.mem_flatten_iff ids,
    fun hacyclic i hi j hr ↦ ?_⟩
  have hfirst : r.AncestorsFirst (r.flatten ids) := flatten_ancestorsFirst fun k hk ↦ by
    obtain ⟨i, hi, hik⟩ := (r.mem_flatten_iff ids k).mp hk
    exact hacyclic i hi k hik
  refine hfirst.sublist_of_transGen (r.flatten_nodup ids) (fun k hk p hp ↦ ?_) hi hr
  exact mem_flatten_of_reaches hk (.single hp)

/-- A lineage that comes together again, and two blocks recorded as ancestors of each other. -/
def tangledRegistry : Registry :=
  ⟨.empty, ⟨[(3, [2]), (2, [1]), (4, [1, 3]), (5, [6]), (6, [5])]⟩⟩

theorem lt_of_step_tangledRegistry {i p : Nat} (hi : i ≤ 4) (h : tangledRegistry.Step i p) :
    p < i := by
  obtain ⟨ts, hts, hp⟩ := h
  have hcases : i = 0 ∨ i = 1 ∨ i = 2 ∨ i = 3 ∨ i = 4 := by omega
  rcases hcases with rfl | rfl | rfl | rfl | rfl <;> cases hts
  · rw [List.mem_singleton.mp hp]
    decide
  · rw [List.mem_singleton.mp hp]
    decide
  · rcases List.mem_cons.mp hp with rfl | hp
    · decide
    · rw [List.mem_singleton.mp hp]
      decide

theorem flatten_ancestor_closure_tangledRegistry :
    tangledRegistry.flatten [5] = [6, 5] ∧ tangledRegistry.flatten [4] = [1, 2, 3, 4] ∧
      ∀ i ∈ tangledRegistry.flatten [4], ∀ j, Relation.TransGen tangledRegistry.Step i j →
        [j, i].Sublist (tangledRegistry.flatten [4]) := by
  obtain ⟨-, -, hmem, hfirst⟩ := flatten_ancestor_closure tangledRegistry [4]
  have hle : ∀ j : Nat, j ∈ tangledRegistry.flatten [4] → j ≤ 4 := by decide
  have hlt : ∀ i j : Nat, i ≤ 4 → Relation.TransGen tangledRegistry.Step i j → j < i := by
    intro i j hi hr
    induction hr with
    | single hp => exact lt_of_step_tangledRegistry hi hp
    | tail _ hp ih => exact Nat.lt_trans (lt_of_step_tangledRegistry (by omega) hp) ih
  refine ⟨by decide, by decide, hfirst fun i hi j hr hj ↦ ?_⟩
  exact Nat.lt_irrefl j (hlt j j (hle j ((hmem j).mpr ⟨i, hi, hr⟩)) hj)

end Templating.Registry
