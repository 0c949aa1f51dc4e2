import Templating.Proofs.Linking.Declaration
import Templating.Proofs.Linking.Flattening
import Templating.Proofs.Linking.Steps
import Templating.Proofs.Node.Renaming

/-!
# Links under other numbers

The numbers of blocks matter to a link only in so far as they are different. Flattening, declaring
and merging give renumbered results for renumbered trees and registries, and so does a whole merge
into a linked parent (`Linked.Renames.inherit`).
-/

namespace Templating

open Node

/-! ### Tables -/

namespace Table

variable {κ ν ν' : Type} [DecidableEq κ] {g : ν → ν'}

/-- The table with other values. -/
def mapValues (g : ν → ν') (t : Table κ ν) : Table κ ν' := ⟨t.entries.map fun e ↦ (e.1, g e.2)⟩

theorem find?_map (k : κ) (es : List (κ × ν)) :
    find? k (es.map fun e ↦ (e.1, g e.2)) = (find? k es).map g := by
  induction es with
  | nil => rfl
  | cons e es ih => by_cases h : e.1 = k <;> simp [find?, h, ih]

@[simp] theorem get?_mapValues (t : Table κ ν) (k : κ) :
    (t.mapValues g).get? k = (t.get? k).map g := find?_map k t.entries

theorem put_map (k : κ) (v : ν) (es : List (κ × ν)) :
    (put k v es).map (fun e ↦ (e.1, g e.2)) = put k (g v) (es.map fun e ↦ (e.1, g e.2)) := by
  induction es with
  | nil => rfl
  | cons e es ih => by_cases h : e.1 = k <;> simp [put, h, ih]

theorem mapValues_insert (t : Table κ ν) (k : κ) (v : ν) :
    (t.insert k v).mapValues g = (t.mapValues g).insert k (g v) :=
  congrArg Table.mk (put_map k v t.entries)

theorem mapValues_overlay (t u : Table κ ν) :
    (t.overlay u).mapValues g = (t.mapValues g).overlay (u.mapValues g) := by
  obtain ⟨es⟩ := u
  unfold overlay
  induction es with
  | nil => rfl
  | cons e es ih =>
    rw [List.foldr_cons, mapValues_insert, ih]
    rfl

end Table

/-! ### Registries -/

namespace Registry

/-- The registry `r'` is `r` with other numbers. Lineages of numbers that `f` does not give are
left open. -/
structure Renames (f : BlockId → BlockId) (r r' : Registry) : Prop where
  blocks : r'.blocks = r.blocks.mapValues (List.map f)
  parentsOf? : ∀ i, r'.parentsOf? (f i) = (r.parentsOf? i).map (List.map f)

/-- A search with other numbers. -/
def Search.map (f : BlockId → BlockId) (s : Search) : Search := ⟨s.seen.map f, s.found.map f⟩

section

variable {f : BlockId → BlockId} {r r' c c' : Registry}

theorem Renames.traverses (h : Renames f r r') (hf : Function.Injective f) {ids : List BlockId}
    {s t : Search} (ht : Traverses r ids s t) :
    Traverses r' (ids.map f) (s.map f) (t.map f) := by
  induction ht with
  | nil s => exact .nil _
  | seen hs _ ih => exact .seen (List.mem_map_of_mem hs) ih
  | @new id ids s t u hn _ _ ihu ih =>
    refine .new (t := t.map f) ?_ ?_ ?_
    · simpa [Search.map, hf.eq_iff] using hn
    · have hparents : (r'.parentsOf? (f id)).getD [] = ((r.parentsOf? id).getD []).map f := by
        rw [h.parentsOf?]
        cases r.parentsOf? id <;> rfl
      rw [hparents]
      exact ihu
    · simpa [Search.map] using ih

theorem Renames.flatten (h : Renames f r r') (hf : Function.Injective f) (ids : List BlockId) :
    r'.flatten (ids.map f) = (r.flatten ids).map f := by
  obtain ⟨t, ht, hfound⟩ := r.exists_traverses_flatten ids
  obtain ⟨t', ht', hfound'⟩ := r'.exists_traverses_flatten (ids.map f)
  rw [← hfound, ← hfound', ht'.unique (h.traverses hf ht)]
  rfl

theorem Renames.get (h : Renames f r r') (m : String) : r'.get m = (r.get m).map f := by
  rw [Registry.get, Registry.get, h.blocks, Table.get?_mapValues]
  cases r.blocks.get? m <;> rfl

theorem Renames.targets (h : Renames f r r') (hf : Function.Injective f) (m : String) :
    r'.targets m = (r.targets m).map f := by
  rw [Registry.targets, h.get, h.flatten hf, Registry.targets]

theorem Renames.empty (f : BlockId → BlockId) : Renames f .empty .empty := ⟨rfl, fun _ ↦ rfl⟩

theorem Renames.register (h : Renames f r r') (hf : Function.Injective f) (name : String)
    (id : BlockId) : Renames f (r.register name id) (r'.register name (f id)) where
  blocks := by
    have hmem : f id ∈ r'.get name ↔ id ∈ r.get name := by simp [h.get, hf.eq_iff]
    simp only [Registry.register, Table.mapValues_insert, hmem, ← h.blocks]
    split
    · rw [h.get]
    · rw [h.get, List.map_append, List.map_singleton]
  parentsOf? := h.parentsOf?

theorem Renames.enter (h : Renames f r r') (hf : Function.Injective f) (k : BlockHead) :
    Renames f (r.enter k) (r'.enter (k.rename f)) := by
  cases hi : k.id with
  | none => simpa [Registry.enter, BlockHead.rename, hi] using h
  | some id =>
    by_cases hm : k.mode = .replace
    · simpa [Registry.enter, BlockHead.rename, hi, hm] using h.register hf k.name id
    · simpa [Registry.enter, BlockHead.rename, hi, hm] using h

theorem Renames.record (h : Renames f r r') (hf : Function.Injective f) (id : BlockId)
    (targets : List BlockId) :
    Renames f (r.record id targets) (r'.record (f id) (targets.map f)) where
  blocks := h.blocks
  parentsOf? i := by
    have hi := h.parentsOf? i
    unfold Registry.parentsOf? at hi ⊢
    simp only [Registry.record, Table.get?_insert, hf.eq_iff, hi]
    split <;> rfl

/-- The lineages that a child adds belong to its own numbers. -/
theorem Renames.overlay (h : Renames f r r') (hc : Renames f c c') :
    Renames f (r.overlay c) (r'.overlay c') where
  blocks := by
    simp only [Registry.overlay, h.blocks, hc.blocks, Table.mapValues_overlay]
  parentsOf? i := by
    rw [parentsOf?_overlay, parentsOf?_overlay, h.parentsOf?, hc.parentsOf?]
    cases c.parentsOf? i <;> rfl

end

end Registry

section

variable {f : Nat → Nat}

/-! ### Declaring -/

/-- The numbers drawn after `s`, up to `last`, are renamed to those drawn after `s'`. -/
def ShiftsUpTo (f : Nat → Nat) (s last s' : Nat) : Prop :=
  ∀ i : Nat, s < i → i ≤ last → f i + s = i + s'

/-- As many numbers were drawn from `s` to `t` as from `s'` to `t'`. -/
def SameGap (s t s' t' : Nat) : Prop := t' + s = t + s'

theorem SameGap.rfl {s s' : Nat} : SameGap s s s' s' := Nat.add_comm s' s

theorem SameGap.trans {s t u s' t' u' : Nat} (h : SameGap s t s' t') (h' : SameGap t u t' u') :
    SameGap s u s' u' := by
  unfold SameGap at *
  omega

theorem ShiftsUpTo.mono {s last mid s' mid' last' : Nat} (h : ShiftsUpTo f s last s')
    (hmid : s ≤ mid) (hmid' : SameGap s mid s' mid') (hlast : last' ≤ last) :
    ShiftsUpTo f mid last' mid' := by
  unfold SameGap at hmid'
  intro i hi hle
  have := h i (by omega) (by omega)
  omega

namespace Node

theorem declareAll_append (ns ms : List Node) (s : BlockId × Registry) :
    declareAll (ns ++ ms) s =
      ((declareAll ns s).1 ++ (declareAll ms (declareAll ns s).2).1,
        (declareAll ms (declareAll ns s).2).2) := by
  induction ns generalizing s with
  | nil => rfl
  | cons n ns ih => simp only [List.cons_append, declareAll_cons, ih]

/-- Declaring only draws numbers. -/
theorem le_declareAll (ns : List Node) (s : Nat) (r : Registry) :
    s ≤ (declareAll ns (s, r)).2.1 := by
  induction ns using forest_induction generalizing s r with
  | nil => exact Nat.le_refl s
  | leaf n ns hn ih =>
    rw [declareAll_cons, declare_leaf hn]
    exact ih s r
  | frame F inner ns ihi ih =>
    rw [declareAll_cons, declare_framed]
    exact Nat.le_trans (ihi s r) (ih _ _)
  | block h inner ns ihi ih =>
    rw [declareAll_cons, declare_block]
    exact Nat.le_trans (Nat.le_trans (le_lastAfter s h) (ihi _ _)) (ih _ _)

theorem numbered_rename {s s' : Nat} {h : BlockHead} (hs : ShiftsUpTo f s (lastAfter s h) s') :
    numbered s' (h.rename f) = (numbered s h).rename f ∧
      SameGap s (lastAfter s h) s' (lastAfter s' (h.rename f)) := by
  cases hi : h.id with
  | some i => simp [numbered, idFrom, lastAfter, BlockHead.rename, hi, SameGap.rfl]
  | none =>
    have hnext : f (s + 1) = s' + 1 := by
      have := hs (s + 1) (by omega) (by simp [lastAfter, hi])
      omega
    simp [numbered, idFrom, lastAfter, BlockHead.rename, hi, hnext, SameGap]
    omega

/-- Nodes get the same numbers from `s` and from `s'` on, up to the shift. -/
def Renumbers (f : Nat → Nat) (ns : List Node) : Prop :=
  ∀ s s' r r', ShiftsUpTo f s (declareAll ns (s, r)).2.1 s' →
    (declareAll (mapHeadsAll (.rename f) ns) (s', r')).1 =
        mapHeadsAll (.rename f) (declareAll ns (s, r)).1 ∧
      SameGap s (declareAll ns (s, r)).2.1 s'
        (declareAll (mapHeadsAll (.rename f) ns) (s', r')).2.1

theorem Renumbers.append {ns ms : List Node} (hn : Renumbers f ns) (hm : Renumbers f ms) :
    Renumbers f (ns ++ ms) := by
  intro s s' r r' h
  rw [declareAll_append] at h
  have hle := le_declareAll ns s r
  have hle' := le_declareAll ms (declareAll ns (s, r)).2.1 (declareAll ns (s, r)).2.2
  obtain ⟨hnodes, hmid⟩ := hn s s' r r' (h.mono (Nat.le_refl s) .rfl hle')
  obtain ⟨hnodes', hlast⟩ := hm (declareAll ns (s, r)).2.1
    (declareAll (mapHeadsAll (.rename f) ns) (s', r')).2.1 (declareAll ns (s, r)).2.2
    (declareAll (mapHeadsAll (.rename f) ns) (s', r')).2.2 (h.mono hle hmid (Nat.le_refl _))
  rw [mapHeadsAll_append, declareAll_append, declareAll_append, mapHeadsAll_append, hnodes]
  exact ⟨congrArg _ hnodes', hmid.trans hlast⟩

theorem Renumbers.cons {n : Node} {ns : List Node} (hn : Renumbers f [n])
    (hns : Renumbers f ns) : Renumbers f (n :: ns) := hn.append hns

/-- Every sequence of nodes is numbered alike. -/
theorem renumbers (f : Nat → Nat) (ns : List Node) : Renumbers f ns := by
  induction ns using forest_induction with
  | nil => exact fun _ _ _ _ _ ↦ ⟨rfl, .rfl⟩
  | leaf n ns hn ih =>
    refine Renumbers.cons (fun s s' r r' _ ↦ ?_) ih
    simp [declareAll_cons, declare_leaf hn, mapHeadsAll_leaf hn, SameGap.rfl]
  | frame F inner ns ihi ih =>
    refine Renumbers.cons (fun s s' r r' h ↦ ?_) ih
    simp only [declareAll_cons, declare_framed, declareAll_nil] at h
    obtain ⟨hnodes, hlast⟩ := ihi s s' r r' h
    simp only [mapHeadsAll_framed, declareAll_cons, declare_framed, declareAll_nil, hnodes]
    exact ⟨trivial, hlast⟩
  | block k inner ns ihi ih =>
    refine Renumbers.cons (fun s s' r r' h ↦ ?_) ih
    simp only [declareAll_cons, declare_block, declareAll_nil] at h
    have hle := le_declareAll inner (lastAfter s k) (r.enter (numbered s k))
    obtain ⟨hhead, hmid⟩ := numbered_rename (h.mono (Nat.le_refl s) .rfl hle)
    obtain ⟨hnodes, hlast⟩ := ihi (lastAfter s k) (lastAfter s' (k.rename f))
      (r.enter (numbered s k)) (r'.enter ((numbered s k).rename f))
      (h.mono (le_lastAfter s k) hmid (Nat.le_refl _))
    simp only [mapHeadsAll_block, declareAll_cons, declare_block, declareAll_nil, hhead, hnodes]
    exact ⟨trivial, hmid.trans hlast⟩

/-- The registry of a numbered document, under other numbers. -/
theorem foldl_enter_renames {r r' : Registry} (h : Registry.Renames f r r')
    (hf : Function.Injective f) (ns : List Node) :
    Registry.Renames f ((blocksAll ns).foldl (fun r b ↦ r.enter b.head) r)
      ((blocksAll (mapHeadsAll (.rename f) ns)).foldl (fun r b ↦ r.enter b.head) r') := by
  rw [blocksAll_mapHeadsAll, List.foldl_map]
  generalize blocksAll ns = bs
  induction bs generalizing r r' with
  | nil => exact h
  | cons b bs ih => exact ih (h.enter hf b.head)

/-- A document that is declared from `s'` on instead of `s` gets a renumbered registry. -/
theorem declareAll_renames (hf : Function.Injective f) {ns : List Node} {s s' : Nat}
    (h : ShiftsUpTo f s (declareAll ns (s, .empty)).2.1 s') :
    Registry.Renames f (declareAll ns (s, .empty)).2.2
      (declareAll (mapHeadsAll (.rename f) ns) (s', .empty)).2.2 := by
  rw [declareAll_registry, declareAll_registry, (renumbers f ns s s' .empty .empty h).1]
  exact foldl_enter_renames (.empty f) hf _

end Node

/-! ### Merging -/

section

variable {r r' : Registry}

theorem Registry.mark_rename (h : ∀ m, r'.targets m = (r.targets m).map f) (k : BlockHead) :
    r'.mark (k.rename f) = (r.mark k).rename f := by
  have hname : (k.rename f).name = k.name := rfl
  simp only [Registry.mark, hname, h, List.map_eq_nil_iff]
  split <;> rfl

/-- The child goes through a merge alike. -/
theorem fst_mergeAll_rename (h : ∀ m, r'.targets m = (r.targets m).map f) (around : List String)
    (ns : List Node) (m m' : Merging) :
    (mergeAll r' around (mapHeadsAll (.rename f) ns) m').1 =
      mapHeadsAll (.rename f) (mergeAll r around ns m).1 := by
  induction ns using forest_induction generalizing around m m' with
  | nil => rfl
  | leaf n ns hn ih =>
    simp only [mapHeadsAll_cons_leaf hn, mergeAll_cons, mergeNode_leaf hn]
    rw [ih around m m']
  | frame F inner ns ihi ih =>
    simp only [mapHeadsAll_cons_framed, mergeAll_cons, mergeNode_framed]
    rw [ihi around m m', ih around _ _]
  | block k inner ns ihi ih =>
    have hname : (k.rename f).name = k.name := rfl
    by_cases hn : k.name ∈ around
    · have hn' : (k.rename f).name ∈ around := hn
      simp only [mapHeadsAll_cons_block, mergeAll_cons, mergeNode_block_of_mem hn,
        mergeNode_block_of_mem hn']
      rw [ihi around m m', ih around _ _]
      rfl
    · have hn' : (k.rename f).name ∉ around := hn
      simp only [mapHeadsAll_cons_block, mergeAll_cons, mergeNode_block_of_not_mem hn,
        mergeNode_block_of_not_mem hn', Registry.mark_rename h, hname]
      rw [ihi (k.name :: around) _ _, ih around _ _]

/-- What becomes of the child does not depend on the parent. -/
theorem fst_mergeAll_congr (r : Registry) (around : List String) (ns : List Node)
    (m m' : Merging) : (mergeAll r around ns m).1 = (mergeAll r around ns m').1 := by
  have h := fst_mergeAll_rename (f := id) (r := r) (fun _ ↦ (List.map_id _).symm) around ns m' m
  rwa [mapHeadsAll_rename_id, mapHeadsAll_rename_id] at h

/-- The parent goes through a merge alike. -/
theorem parent_mergeAll_rename (h : ∀ m, r'.targets m = (r.targets m).map f)
    (hf : Function.Injective f) (around : List String) (ns : List Node) (m m' : Merging)
    (hm : m'.parent = mapHeadsAll (.rename f) m.parent) :
    (mergeAll r' around (mapHeadsAll (.rename f) ns) m').2.parent =
      mapHeadsAll (.rename f) (mergeAll r around ns m).2.parent := by
  rw [parent_mergeAll, parent_mergeAll, fst_mergeAll_rename h around ns m m',
    outermostAll_mapHeadsAll (g := .rename f) fun _ ↦ rfl, hm]
  generalize outermostAll around (mergeAll r around ns m).1 = bs
  generalize m.parent = ms
  induction bs generalizing ms with
  | nil => rfl
  | cons b bs ih =>
    have happly : r'.apply (mapHeadsAll (.rename f) ms)
        ⟨b.head.rename f, mapHeadsAll (.rename f) b.nodes⟩ =
          mapHeadsAll (.rename f) (r.apply ms b) := by
      rw [Registry.apply, Registry.apply, mapHeadsAll_rename_amendAll hf, ← h]
      rfl
    rw [List.map_cons, List.foldl_cons, happly, ih, List.foldl_cons]

theorem Registry.Renames.trace (h : ∀ m, r'.targets m = (r.targets m).map f)
    (hf : Function.Injective f) {c c' : Registry} (hc : Registry.Renames f c c') (k : BlockHead) :
    Registry.Renames f (r.trace k c) (r'.trace (k.rename f) c') := by
  have hname : (k.rename f).name = k.name := rfl
  cases hi : k.id with
  | none => simpa [Registry.trace, BlockHead.rename, hi] using hc
  | some i =>
    have hi' : (k.rename f).id = some (f i) := by simp [BlockHead.rename, hi]
    simp only [Registry.trace, hi, hi', hname, h, List.map_eq_nil_iff]
    split
    · exact hc
    · exact hc.record hf i _

/-- The lineage goes through a merge alike. -/
theorem lineage_mergeAll_rename (h : ∀ m, r'.targets m = (r.targets m).map f)
    (hf : Function.Injective f) (around : List String) (ns : List Node) (m m' : Merging)
    (hm : Registry.Renames f m.lineage m'.lineage) :
    Registry.Renames f (mergeAll r around ns m).2.lineage
      (mergeAll r' around (mapHeadsAll (.rename f) ns) m').2.lineage := by
  induction ns using forest_induction generalizing around m m' with
  | nil => exact hm
  | leaf n ns hn ih =>
    simp only [mapHeadsAll_cons_leaf hn, mergeAll_cons, mergeNode_leaf hn]
    exact ih around m m' hm
  | frame F inner ns ihi ih =>
    simp only [mapHeadsAll_cons_framed, mergeAll_cons, mergeNode_framed]
    exact ih around _ _ (ihi around m m' hm)
  | block k inner ns ihi ih =>
    by_cases hn : k.name ∈ around
    · have hn' : (k.rename f).name ∈ around := hn
      simp only [mapHeadsAll_cons_block, mergeAll_cons, mergeNode_block_of_mem hn,
        mergeNode_block_of_mem hn']
      exact ih around _ _ (ihi around m m' hm)
    · have hn' : (k.rename f).name ∉ around := hn
      simp only [mapHeadsAll_cons_block, mergeAll_cons, mergeNode_block_of_not_mem hn,
        mergeNode_block_of_not_mem hn']
      exact ih around _ _ (ihi (k.name :: around) _ _ (Registry.Renames.trace h hf hm k))

end

/-! ### Linked documents -/

/-- The linked document `l'` is `l` with other numbers. -/
structure Linked.Renames (f : BlockId → BlockId) (l l' : Linked) : Prop where
  root : l'.root = l.root.rename f
  declared : Registry.Renames f l.declared l'.declared

/-- Without other numbers the trees and the names are the same. -/
theorem Linked.Renames.eq_of_id {l l' : Linked} (h : l.Renames id l') :
    l'.root = l.root ∧ l'.declared.blocks = l.declared.blocks := by
  constructor
  · rw [h.root]
    exact congrArg (Body.mk · l.root.position) (mapHeadsAll_rename_id l.root.nodes)
  · simp [h.declared.blocks, Table.mapValues]

theorem Node.exists_name_rename_iff (f : BlockId → BlockId) (ns : List Node) (m : String) :
    (∃ b ∈ blocksAll (mapHeadsAll (.rename f) ns), b.head.name = m) ↔
      ∃ b ∈ blocksAll ns, b.head.name = m := by
  rw [blocksAll_mapHeadsAll]
  constructor
  · rintro ⟨_, hb, hm⟩
    obtain ⟨b, hmem, rfl⟩ := List.mem_map.mp hb
    exact ⟨b, hmem, hm⟩
  · rintro ⟨b, hb, hm⟩
    exact ⟨_, List.mem_map_of_mem hb, hm⟩

/-- A name in one of the documents is a name in the other one. -/
theorem Linked.Renames.exists_name_iff {l l' : Linked} (h : l.Renames f l') (m : String) :
    (∃ b ∈ blocksAll l'.root.nodes, b.head.name = m) ↔
      ∃ b ∈ blocksAll l.root.nodes, b.head.name = m := by
  rw [h.root]
  exact exists_name_rename_iff f l.root.nodes m

/-- A merge of a renumbered document into a renumbered parent ends alike. -/
theorem Linked.Renames.inherit {parent parent' : Linked} (hf : Function.Injective f)
    (hp : parent.Renames f parent') {child child' : List Node}
    (hc : child' = mapHeadsAll (.rename f) child) {r r' : Registry}
    (hr : Registry.Renames f r r') (overrides : List (String × Position)) :
    Outcomes Eq (fun l l' ↦ l.Renames f l' ∧ l'.inherits = l.inherits)
      (parent.inherit child r overrides) (parent'.inherit child' r' overrides) := by
  subst hc
  have htargets := hp.declared.targets hf
  have hroot : parent'.root.nodes = mapHeadsAll (.rename f) parent.root.nodes := by
    rw [hp.root]
    rfl
  have hposition : parent'.root.position = parent.root.position := by
    rw [hp.root]
    rfl
  have hchild := fst_mergeAll_rename htargets [] child ⟨parent.root.nodes, r⟩
    ⟨parent'.root.nodes, r'⟩
  have hparent := parent_mergeAll_rename htargets hf [] child ⟨parent.root.nodes, r⟩
    ⟨parent'.root.nodes, r'⟩ hroot
  have hlineage := lineage_mergeAll_rename htargets hf [] child ⟨parent.root.nodes, r⟩
    ⟨parent'.root.nodes, r'⟩ hr
  unfold Linked.inherit
  simp only [hparent, hchild, blockNamesAll_mapHeadsAll (g := BlockHead.rename f) fun _ ↦ rfl]
  split
  · exact .error rfl
  · refine .ok ⟨⟨?_, hp.declared.overlay hlineage⟩, rfl⟩
    simp only [Block.mapHeads, mapHeadsAll_append, mapHeadsAll_topMixinsAll, hposition]

end

end Templating
