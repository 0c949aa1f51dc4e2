import Mathlib.Logic.Relation
import Templating.Linking.Registry

/-!
# Ancestors of blocks

Flattening a list of blocks finds exactly the blocks that are reached from it by steps to recorded
ancestors, whatever the lineage. The depth that bounds the search is the number of recorded
lineages, and every step down uses up one of them.
-/

namespace Templating

theorem Table.exists_entry_of_find? {κ ν : Type} [DecidableEq κ] {es : List (κ × ν)} {k : κ}
    {v : ν} (h : Table.find? k es = some v) : ∃ e ∈ es, e.1 = k := by
  induction es with
  | nil => cases h
  | cons e rest ih =>
    by_cases he : e.1 = k
    · exact ⟨e, List.mem_cons_self, he⟩
    · obtain ⟨e', he', hk⟩ := ih (by simpa [Table.find?, he] using h)
      exact ⟨e', List.mem_cons_of_mem _ he', hk⟩

namespace Registry

/-- `p` is recorded as an ancestor of `i`. -/
def Step (r : Registry) (i p : BlockId) : Prop := ∃ ts, r.parentsOf? i = some ts ∧ p ∈ ts

/-- `j` is `i` or an ancestor of `i` in any number of steps. -/
abbrev Reaches (r : Registry) (i j : BlockId) : Prop := Relation.ReflTransGen r.Step i j

/-- What a search from `ids` does to the blocks met and left behind. -/
structure Searches (r : Registry) (ids : List BlockId) (s t : Search) : Prop where
  keeps : ∀ j ∈ s.seen, j ∈ t.seen
  starts : ∀ i ∈ ids, i ∈ t.seen
  reaches : ∀ j ∈ t.seen, j ∈ s.seen ∨ ∃ i ∈ ids, r.Reaches i j
  closed : ∀ j ∈ t.seen, j ∉ s.seen → ∀ p, r.Step j p → p ∈ t.seen
  found : ∀ j, j ∈ t.found ↔ j ∈ s.found ∨ (j ∈ t.seen ∧ j ∉ s.seen)

namespace Searches

variable {r : Registry} {s t u : Search}

theorem nil (r : Registry) (s : Search) : Searches r [] s s where
  keeps _ hj := hj
  starts := by simp
  reaches _ hj := .inl hj
  closed _ hj hn := absurd hj hn
  found j := by simp

theorem append {ids ids' : List BlockId} (h : Searches r ids s t) (h' : Searches r ids' t u) :
    Searches r (ids ++ ids') s u where
  keeps j hj := h'.keeps j (h.keeps j hj)
  starts i hi := by
    rcases List.mem_append.mp hi with hi | hi
    · exact h'.keeps i (h.starts i hi)
    · exact h'.starts i hi
  reaches j hj := by
    rcases h'.reaches j hj with hj | ⟨i, hi, hr⟩
    · rcases h.reaches j hj with hj | ⟨i, hi, hr⟩
      · exact .inl hj
      · exact .inr ⟨i, List.mem_append_left _ hi, hr⟩
    · exact .inr ⟨i, List.mem_append_right _ hi, hr⟩
  closed j hj hn p hp := by
    by_cases ht : j ∈ t.seen
    · exact h'.keeps p (h.closed j ht hn p hp)
    · exact h'.closed j hj ht p hp
  found j := by
    have hk := h.keeps j
    have hk' := h'.keeps j
    rw [h'.found, h.found]
    grind

/-- A block that was met before is passed over. -/
theorem of_seen {id : BlockId} (h : id ∈ s.seen) : Searches r [id] s s where
  keeps _ hj := hj
  starts := by simpa using h
  reaches _ hj := .inl hj
  closed _ hj hn := absurd hj hn
  found j := by simp

/-- A new block is left behind its ancestors. -/
theorem of_not_seen {id : BlockId} (h : id ∉ s.seen)
    (ht : Searches r ((r.parentsOf? id).getD []) ⟨id :: s.seen, s.found⟩ t) :
    Searches r [id] s ⟨t.seen, t.found ++ [id]⟩ where
  keeps j hj := ht.keeps j (List.mem_cons_of_mem _ hj)
  starts := by simpa using ht.keeps id List.mem_cons_self
  reaches j hj := by
    rcases ht.reaches j hj with hj | ⟨p, hp, hr⟩
    · rcases List.mem_cons.mp hj with rfl | hj
      · exact .inr ⟨j, List.mem_cons_self, .refl⟩
      · exact .inl hj
    · cases hi : r.parentsOf? id with
      | none => simp [hi] at hp
      | some ts =>
        have hs : r.Step id p := ⟨ts, hi, by simpa [hi] using hp⟩
        exact .inr ⟨id, List.mem_cons_self, .head hs hr⟩
  closed j hj hn p hp := by
    by_cases hi : j = id
    · obtain ⟨ts, hts, hpt⟩ := hp
      exact ht.starts p (by simpa [← hi, hts] using hpt)
    · exact ht.closed j hj (by simp [hi, hn]) p hp
  found j := by
    have hid : id ∈ t.seen := ht.keeps id List.mem_cons_self
    rw [List.mem_append, ht.found]
    by_cases hj : j = id
    · subst hj
      simp [hid, h]
    · simp [hj]

end Searches

/-- The number of recorded lineages of blocks that were not met. -/
def unmet (r : Registry) (seen : List BlockId) : Nat :=
  r.parents.entries.countP fun e ↦ e.1 ∉ seen

theorem unmet_le {r : Registry} {seen seen' : List BlockId} (h : ∀ j ∈ seen, j ∈ seen') :
    r.unmet seen' ≤ r.unmet seen := by
  apply List.countP_mono_left
  intro e _ he
  simp only [decide_eq_true_eq] at he ⊢
  exact fun hs ↦ he (h _ hs)

theorem unmet_lt {r : Registry} {seen : List BlockId} {id : BlockId} {ts : List BlockId}
    (hn : id ∉ seen) (hi : r.parentsOf? id = some ts) : r.unmet (id :: seen) < r.unmet seen := by
  obtain ⟨e, he, hid⟩ := Table.exists_entry_of_find? hi
  have hf : r.parents.entries.filter (fun e ↦ e.1 ∉ id :: seen) =
      (r.parents.entries.filter fun e ↦ e.1 ∉ seen).filter fun e ↦ e.1 ≠ id := by
    rw [List.filter_filter]
    exact List.filter_congr fun e _ ↦ by simp [not_or]
  unfold unmet
  rw [List.countP_eq_length_filter, List.countP_eq_length_filter, hf,
    List.length_filter_lt_length_iff_exists]
  exact ⟨e, by simp [he, hid, hn], by simp [hid]⟩

/-- A search from `ids` that no bound cuts short. -/
inductive Traverses (r : Registry) : List BlockId → Search → Search → Prop
  | nil (s : Search) : Traverses r [] s s
  /-- A block that was met before is passed over. -/
  | seen {id : BlockId} {ids : List BlockId} {s t : Search} (h : id ∈ s.seen)
      (rest : Traverses r ids s t) : Traverses r (id :: ids) s t
  /-- A new block is left behind its ancestors. -/
  | new {id : BlockId} {ids : List BlockId} {s t u : Search} (h : id ∉ s.seen)
      (up : Traverses r ((r.parentsOf? id).getD []) ⟨id :: s.seen, s.found⟩ t)
      (rest : Traverses r ids ⟨t.seen, t.found ++ [id]⟩ u) : Traverses r (id :: ids) s u

namespace Traverses

variable {r : Registry} {s t u : Search}

theorem append {ids ids' : List BlockId} (h : Traverses r ids s t) (h' : Traverses r ids' t u) :
    Traverses r (ids ++ ids') s u := by
  induction h with
  | nil => exact h'
  | seen hs _ ih => exact .seen hs (ih h')
  | new hs up _ _ ih => exact .new hs up (ih h')

theorem searches {ids : List BlockId} (h : Traverses r ids s t) : Searches r ids s t := by
  induction h with
  | nil s => exact .nil r s
  | seen hs _ ih => exact (Searches.of_seen hs).append ih
  | new hs _ _ ihu ih => exact (Searches.of_not_seen hs ihu).append ih

/-- An unbounded search leaves one thing behind. -/
theorem unique {ids : List BlockId} {t' : Search} (h : Traverses r ids s t)
    (h' : Traverses r ids s t') : t = t' := by
  induction h generalizing t' with
  | nil s =>
    cases h'
    rfl
  | seen hs _ ih =>
    cases h' with
    | seen _ rest => exact ih rest
    | new hn _ _ => exact absurd hs hn
  | new hn _ _ ihu ih =>
    cases h' with
    | seen hs _ => exact absurd hs hn
    | new _ up rest =>
      obtain rfl := ihu up
      exact ih rest

end Traverses

theorem traverses_foldl {r : Registry} {depth : Nat}
    (hv : ∀ id s, r.unmet s.seen ≤ depth → Traverses r [id] s (r.visit depth id s))
    (ids : List BlockId) (s : Search) (h : r.unmet s.seen ≤ depth) :
    Traverses r ids s (ids.foldl (fun s p ↦ r.visit depth p s) s) := by
  induction ids generalizing s with
  | nil => exact .nil s
  | cons id ids ih =>
    have hd := hv id s h
    exact hd.append (ih _ (Nat.le_trans (unmet_le hd.searches.keeps) h))

/-- A search that may go down once for each lineage not met is complete. -/
theorem traverses_visit (r : Registry) (depth : Nat) (id : BlockId) (s : Search)
    (h : r.unmet s.seen ≤ depth) : Traverses r [id] s (r.visit depth id s) := by
  induction depth generalizing id s with
  | zero =>
    by_cases hid : id ∈ s.seen
    · rw [visit, if_pos hid]
      exact .seen hid (.nil s)
    · rw [visit, if_neg hid]
      have hnone : r.parentsOf? id = none := by
        cases hp : r.parentsOf? id with
        | none => rfl
        | some ts =>
          have := unmet_lt hid hp
          omega
      exact .new hid (by simpa [hnone] using Traverses.nil _) (.nil _)
  | succ depth ih =>
    by_cases hid : id ∈ s.seen
    · rw [visit, if_pos hid]
      exact .seen hid (.nil s)
    · rw [visit, if_neg hid]
      refine .new hid ?_ (.nil _)
      cases hp : r.parentsOf? id with
      | none => exact .nil _
      | some ts =>
        have := unmet_lt hid hp
        exact traverses_foldl ih ts _ (Nat.le_of_lt_succ (Nat.lt_of_lt_of_le this h))

/-- What flattening finds is what an unbounded search leaves behind. -/
theorem exists_traverses_flatten (r : Registry) (ids : List BlockId) :
    ∃ t, Traverses r ids ⟨[], []⟩ t ∧ t.found = r.flatten ids :=
  ⟨_, traverses_foldl (r.traverses_visit r.parents.size) ids ⟨[], []⟩ List.countP_le_length, rfl⟩

/-- Flattening finds the given blocks and all their ancestors, and nothing else. -/
theorem mem_flatten_iff (r : Registry) (ids : List BlockId) (j : BlockId) :
    j ∈ r.flatten ids ↔ ∃ i ∈ ids, r.Reaches i j := by
  obtain ⟨t, ht, hfound⟩ := r.exists_traverses_flatten ids
  have hs := ht.searches
  rw [← hfound, hs.found j]
  constructor
  · rintro (hj | ⟨hj, -⟩)
    · simp at hj
    · simpa using hs.reaches j hj
  · rintro ⟨i, hi, hr⟩
    right
    refine ⟨?_, by simp⟩
    induction hr with
    | refl => exact hs.starts i hi
    | tail _ hstep ih => exact hs.closed _ ih (by simp) _ hstep

/-- The blocks that an override of a name is applied to: the declared ones and their ancestors. -/
def targets (r : Registry) (name : String) : List BlockId := r.flatten (r.get name)

/-- A flattened list is closed under ancestors. -/
theorem mem_flatten_of_reaches {r : Registry} {ids : List BlockId} {i j : BlockId}
    (hi : i ∈ r.flatten ids) (hr : r.Reaches i j) : j ∈ r.flatten ids := by
  rw [mem_flatten_iff] at hi ⊢
  obtain ⟨k, hk, hki⟩ := hi
  exact ⟨k, hk, hki.trans hr⟩

/-- Without recorded lineages the targets of a name are the blocks declared under it. -/
theorem mem_targets_of_parents_empty {r : Registry} (h : r.parents = .empty) (m : String)
    (i : BlockId) : i ∈ r.targets m ↔ i ∈ r.get m := by
  have hstep : ∀ j p, ¬ r.Step j p := by
    rintro j p ⟨ts, hts, -⟩
    simp [parentsOf?, h] at hts
  rw [targets, mem_flatten_iff]
  constructor
  · rintro ⟨j, hj, hr⟩
    rcases hr.cases_head with rfl | ⟨p, hp, -⟩
    · exact hj
    · exact absurd hp (hstep j p)
  · exact fun hi ↦ ⟨i, hi, .refl⟩

/-! ### A registry over another -/

/-- Every name in the registry has a block. -/
def NamesHaveBlocks (r : Registry) : Prop := ∀ m ids, r.blocks.get? m = some ids → ids ≠ []

theorem get_overlay {c : Registry} (h : c.NamesHaveBlocks) (r : Registry) (m : String) :
    (r.overlay c).get m = if c.get m = [] then r.get m else c.get m := by
  cases hm : c.blocks.get? m with
  | none => simp [overlay, get, hm]
  | some ids => simp [overlay, get, hm, h m ids hm]

theorem parentsOf?_overlay (r c : Registry) (i : BlockId) :
    (r.overlay c).parentsOf? i = (c.parentsOf? i).or (r.parentsOf? i) := by
  simp [overlay, parentsOf?]

/-- The registry of a child, when it is put over the one of its parent: the numbers up to `s` are
the child's, and the lineage of a block consists of the targets of its name. -/
structure LiesOver (c r : Registry) (s : Nat) : Prop where
  namesHaveBlocks : c.NamesHaveBlocks
  get_le : ∀ m, ∀ i : Nat, i ∈ c.get m → i ≤ s
  parents_le : ∀ i : Nat, (c.parentsOf? i).isSome → i ≤ s
  lineage : ∀ m, ∀ i ∈ c.get m, ∀ ts, c.parentsOf? i = some ts → ts = r.targets m
  lt_target : ∀ m, ∀ i : Nat, i ∈ r.targets m → s < i
  lt_step : ∀ i p : Nat, r.Step i p → s < i ∧ s < p

namespace LiesOver

variable {c r : Registry} {s : Nat}

/-- Above the child's numbers the parent's lineages hold. -/
theorem step_iff (h : LiesOver c r s) {i : Nat} (hi : s < i) (p : BlockId) :
    (r.overlay c).Step i p ↔ r.Step i p := by
  have hc : c.parentsOf? i = none := by
    cases hp : c.parentsOf? i with
    | none => rfl
    | some ts => exact absurd (h.parents_le i (by simp [hp])) (Nat.not_le.mpr hi)
  simp [Step, parentsOf?_overlay, hc]

theorem reaches_iff (h : LiesOver c r s) {i : Nat} (hi : s < i) (j : BlockId) :
    (r.overlay c).Reaches i j ↔ r.Reaches i j := by
  constructor
  · intro hr
    suffices r.Reaches i j ∧ s < (j : Nat) from this.1
    induction hr with
    | refl => exact ⟨.refl, hi⟩
    | tail _ hstep ih =>
      have hs := (h.step_iff ih.2 _).mp hstep
      exact ⟨ih.1.tail hs, (h.lt_step _ _ hs).2⟩
  · intro hr
    suffices (r.overlay c).Reaches i j ∧ s < (j : Nat) from this.1
    induction hr with
    | refl => exact ⟨.refl, hi⟩
    | tail _ hstep ih =>
      exact ⟨ih.1.tail ((h.step_iff ih.2 _).mpr hstep), (h.lt_step _ _ hstep).2⟩

/-- A name that the child declares keeps its targets in the parent exactly if the child recorded
a lineage for one of its blocks of that name. -/
theorem mem_targets_iff (h : LiesOver c r s) (m : String) (i : BlockId) :
    i ∈ (r.overlay c).targets m ↔
      i ∈ c.get m ∨
        (i ∈ r.targets m ∧ (c.get m = [] ∨ ∃ j ∈ c.get m, (c.parentsOf? j).isSome)) := by
  by_cases hm : c.get m = []
  · have hget : (r.overlay c).get m = r.get m := by simp [get_overlay h.namesHaveBlocks, hm]
    have hlt : ∀ j : Nat, j ∈ r.get m → s < j := fun j hj ↦
      h.lt_target m j ((mem_flatten_iff _ _ _).mpr ⟨j, hj, .refl⟩)
    simp only [hm, List.not_mem_nil, false_or, true_or, and_true]
    rw [targets, targets, mem_flatten_iff, mem_flatten_iff, hget]
    exact exists_congr fun j ↦ and_congr_right fun hj ↦ h.reaches_iff (hlt j hj) i
  · have hget : (r.overlay c).get m = c.get m := by simp [get_overlay h.namesHaveBlocks, hm]
    have hstep : ∀ j : Nat, j ∈ c.get m → ∀ p, (r.overlay c).Step j p ↔
        (c.parentsOf? j).isSome ∧ p ∈ r.targets m := by
      intro j hj p
      cases hp : c.parentsOf? j with
      | none =>
        have hno : ¬ r.Step j p := fun hs ↦
          absurd (h.lt_step j p hs).1 (Nat.not_lt.mpr (h.get_le m j hj))
        simpa [Step, parentsOf?_overlay, hp] using hno
      | some ts => simp [Step, parentsOf?_overlay, hp, h.lineage m j hj ts hp]
    rw [targets, mem_flatten_iff, hget]
    simp only [hm, false_or]
    constructor
    · rintro ⟨j, hj, hr⟩
      rcases hr.cases_head with rfl | ⟨p, hp, hr⟩
      · exact .inl hj
      · obtain ⟨hs, hp⟩ := (hstep j hj p).mp hp
        have hr := (h.reaches_iff (h.lt_target m p hp) i).mp hr
        exact .inr ⟨mem_flatten_of_reaches hp hr, j, hj, hs⟩
    · rintro (hi | ⟨hi, j, hj, hs⟩)
      · exact ⟨i, hi, .refl⟩
      · exact ⟨j, hj, .single ((hstep j hj i).mpr ⟨hs, hi⟩)⟩

end LiesOver

end Registry
end Templating
