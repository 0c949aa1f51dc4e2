import Mathlib.Data.List.ReduceOption
import Templating.Proofs.Walk.Places

/-!
# Walks of siblings

Nodes next to each other are walked in place, by a sweep over the sequence that shrinks under it
(`Walk.siblings_eq_sweep`). What a walk of two sequences one behind the other leaves is put together
from what the walks of each leave, the second from where the first ends (`Node.walkAll_append`). Of
the depth to which a walk may go it only matters that it is enough (`Walk.visit_of_le`).
-/

namespace Templating

namespace Walk

variable {σ ε : Type} {one one' : σ → Node → Option (σ × Fate ε)} {v : Visitor σ ε} {follow : Bool}
  {s : σ} {n : Node} {ns xs ys : List Node} {depth depth' : Nat}

/-! ### Sweeps -/

/-- Walk a sequence in place, from the node at an index on. Behind a node that is kept the sweep
goes on at the next index; a node that is taken out makes room for the next one at the same
index. -/
def sweep (one : σ → Node → Option (σ × Fate ε)) (s : σ) (index : Nat) (ns : List Node) :
    Option (Trail σ ε (List Node)) :=
  if h : index < ns.length then
    match one s ns[index] with
    | none => none
    | some (s, .kept n) => sweep one s (index + 1) (ns.set index n)
    | some (s, .removed _) => sweep one s index (ns.eraseIdx index)
    | some (s, .stopped n reason) => some ⟨s, ns.set index n, some reason⟩
  else some ⟨s, ns, none⟩
  termination_by ns.length - index
  decreasing_by all_goals simp only [List.length_set, List.length_eraseIdx]; grind

/-- What is left with other nodes in front. -/
def Trail.behind (done : List Node) (t : Trail σ ε (List Node)) : Trail σ ε (List Node) :=
  { t with left := done ++ t.left }

theorem map_behind_nil (o : Option (Trail σ ε (List Node))) : o.map (Trail.behind []) = o := by
  cases o <;> rfl

theorem map_behind_behind (done more : List Node) (o : Option (Trail σ ε (List Node))) :
    (o.map (Trail.behind more)).map (Trail.behind done) = o.map (Trail.behind (done ++ more)) := by
  cases o <;> simp [Trail.behind]

theorem sweep_end (done : List Node) (s : σ) :
    sweep one s done.length done = some ⟨s, done, none⟩ := by
  rw [sweep, dif_neg (Nat.lt_irrefl _)]

/-- One turn of a sweep. What is behind it and what is ahead do not matter for the turn. -/
theorem sweep_turn (done : List Node) (s : σ) (n : Node) (ns : List Node) :
    sweep one s done.length (done ++ n :: ns) =
      match one s n with
      | none => none
      | some (s, .kept m) => sweep one s (done ++ [m]).length (done ++ [m] ++ ns)
      | some (s, .removed _) => sweep one s done.length (done ++ ns)
      | some (s, .stopped m reason) => some ⟨s, done ++ m :: ns, some reason⟩ := by
  have hset (m : Node) : (done ++ n :: ns).set done.length m = done ++ m :: ns := by simp
  have herase : (done ++ n :: ns).eraseIdx done.length = done ++ ns := by
    rw [List.eraseIdx_append_of_length_le (Nat.le_refl _), Nat.sub_self, List.eraseIdx_cons_zero]
  rw [sweep, dif_pos (by simp)]
  simp only [List.getElem_append_right (Nat.le_refl _), Nat.sub_self, List.getElem_cons_zero,
    hset, herase, List.length_append, List.length_singleton, List.append_assoc,
    List.singleton_append]

/-- A sweep leaves the nodes behind it alone, and makes of those ahead what a walk makes of them. -/
theorem sweep_eq (done : List Node) (s : σ) (ns : List Node) :
    sweep one s done.length (done ++ ns) = (siblings one s ns).map (Trail.behind done) := by
  induction ns generalizing done s with
  | nil => simp [sweep_end, siblings, Trail.behind]
  | cons n ns ih =>
    rw [sweep_turn, siblings]
    rcases one s n with _ | ⟨s, m | m | ⟨m, reason⟩⟩
    · rfl
    · exact (ih (done ++ [m]) s).trans (map_behind_behind done [m] _).symm
    · exact ih done s
    · rfl

theorem siblings_eq_sweep (s : σ) (ns : List Node) : siblings one s ns = sweep one s 0 ns := by
  rw [← map_behind_nil (siblings one s ns)]
  exact (sweep_eq [] s ns).symm

/-! ### Two sequences -/

theorem siblings_append (s : σ) (xs ys : List Node) :
    siblings one s (xs ++ ys) = (siblings one s xs).bind fun t ↦
      match t.stopped with
      | some _ => some { t with left := t.left ++ ys }
      | none => (siblings one t.state ys).map (Trail.behind t.left) := by
  induction xs generalizing s with
  | nil => exact (map_behind_nil _).symm
  | cons n xs ih =>
    rw [List.cons_append, siblings, siblings]
    rcases one s n with _ | ⟨s, m | m | ⟨m, reason⟩⟩
    · rfl
    · simp only [ih]
      rcases siblings one s xs with _ | ⟨s, left, _ | reason⟩
      · rfl
      · exact map_behind_behind [m] left _
      · rfl
    · exact ih s
    · rfl

/-! ### Depth -/

section

variable (h : ∀ s n r, one s n = some r → one' s n = some r)
include h

theorem siblings_of_le {t : Trail σ ε (List Node)} (ht : siblings one s ns = some t) :
    siblings one' s ns = some t := by
  induction ns generalizing s t with
  | nil => exact ht
  | cons n ns ih =>
    rw [siblings] at ht ⊢
    rcases hone : one s n with _ | ⟨s', m | m | ⟨m, reason⟩⟩ <;> rw [hone] at ht
    · cases ht
    · obtain ⟨u, hu, rfl⟩ := Option.map_eq_some_iff.mp ht
      simp [h _ _ _ hone, ih hu]
    · simp only [h _ _ _ hone]
      exact ih ht
    · rw [h _ _ _ hone]
      exact ht

theorem document_of_le {d : Option Node} {t : Trail σ ε (Option Node)}
    (ht : document one follow s d = some t) : document one' follow s d = some t := by
  cases d with
  | none => exact ht
  | some d =>
    rw [document] at ht ⊢
    split at ht
    · obtain ⟨u, hu, rfl⟩ := Option.map_eq_some_iff.mp ht
      obtain ⟨r, hr, rfl⟩ := Option.map_eq_some_iff.mp hu
      simp [root, h _ _ _ hr, *]
    · simp_all

theorem children_of_le {t : Trail σ ε Node} (ht : children one follow s n = some t) :
    children one' follow s n = some t := by
  rw [children_eq] at ht ⊢
  obtain ⟨u, hu, ht⟩ := Option.bind_eq_some_iff.mp ht
  rw [document_of_le h hu, Option.bind_some]
  split at ht
  · next hstop => simpa only [hstop] using ht
  · next hstop =>
    obtain ⟨w, hw, rfl⟩ := Option.map_eq_some_iff.mp ht
    rw [siblings_of_le h hw, Option.map_some]

end

/-- A walk that may go deeper does the same. -/
theorem visit_of_le {r : σ × Fate ε} (hle : depth ≤ depth')
    (h : visit v follow depth s n = some r) : visit v follow depth' s n = some r := by
  induction depth generalizing depth' s n r with
  | zero => cases h
  | succ depth ih =>
    obtain ⟨depth', rfl⟩ : ∃ k, depth' = k + 1 := ⟨depth' - 1, by omega⟩
    rw [visit] at h ⊢
    rcases hdecision : (v.before s n).decision with reason | _ | _ | m | _ <;>
      simp only [hdecision] at h ⊢
    · exact h
    · rcases hchildren : children (visit v follow depth) follow (v.before s n).state
        (v.before s n).node with _ | t <;> rw [hchildren] at h
      · cases h
      · rw [children_of_le (fun _ _ _ hone ↦ ih (by omega) hone) hchildren]
        exact h
    all_goals exact h

end Walk

open Walk

variable {σ ε : Type}

/-- A walk of a sequence ends, and leaves this behind. -/
def Visitor.Leaves (v : Visitor σ ε) (follow : Bool) (s : σ) (ns : List Node)
    (t : Walk.Trail σ ε (List Node)) : Prop :=
  ∃ depth, Node.walkAll v follow depth s ns = some t

/-- What becomes of each of several siblings: what a walk of it alone leaves, one node or none, in
the state that the walk of those before it ends in. If one of those stops the walk, the sibling is
left as it is. -/
inductive Visitor.Parts (v : Visitor σ ε) (follow : Bool) :
    σ → List Node → List (Option Node) → Prop
  | nil {s : σ} : Parts v follow s [] []
  | walked {s s' : σ} {n : Node} {ns : List Node} {part : Option Node} {parts : List (Option Node)}
    (h : v.Leaves follow s [n] ⟨s', part.toList, none⟩) (hrest : Parts v follow s' ns parts) :
    Parts v follow s (n :: ns) (part :: parts)
  | stopped {s s' : σ} {n m : Node} {ns : List Node} {reason : ε}
    (h : v.Leaves follow s [n] ⟨s', [m], some reason⟩) :
    Parts v follow s (n :: ns) (some m :: ns.map some)

variable {v : Visitor σ ε} {follow : Bool}

theorem Visitor.Leaves.exists_parts {s : σ} {ns : List Node} {t : Walk.Trail σ ε (List Node)}
    (h : v.Leaves follow s ns t) :
    ∃ parts, v.Parts follow s ns parts ∧ t.left = parts.reduceOption := by
  obtain ⟨depth, h⟩ := h
  induction ns generalizing s t with
  | nil =>
    cases h
    exact ⟨[], .nil, rfl⟩
  | cons n ns ih =>
    have halone : Node.walkAll v follow depth s [n] = siblings (visit v follow depth) s [n] := rfl
    rw [Node.walkAll, siblings] at h
    rw [siblings] at halone
    rcases hone : visit v follow depth s n with _ | ⟨s', m | m | ⟨m, reason⟩⟩ <;>
      rw [hone] at h halone
    · cases h
    · obtain ⟨u, hu, rfl⟩ := Option.map_eq_some_iff.mp h
      obtain ⟨parts, hparts, hleft⟩ := ih hu
      exact ⟨some m :: parts, .walked ⟨depth, halone⟩ hparts, by simp [hleft]⟩
    · obtain ⟨parts, hparts, hleft⟩ := ih h
      exact ⟨none :: parts, .walked ⟨depth, halone⟩ hparts, by simp [hleft]⟩
    · cases h
      exact ⟨some m :: ns.map some, .stopped ⟨depth, halone⟩, by simp [List.reduceOption]⟩

theorem Visitor.leaves_append_iff {s : σ} {xs ys : List Node} {w : Walk.Trail σ ε (List Node)} :
    v.Leaves follow s (xs ++ ys) w ↔ ∃ t, v.Leaves follow s xs t ∧
      match t.stopped with
      | some _ => w = { t with left := t.left ++ ys }
      | none => ∃ u, v.Leaves follow t.state ys u ∧ w = { u with left := t.left ++ u.left } := by
  constructor
  · rintro ⟨depth, h⟩
    rw [Node.walkAll, siblings_append] at h
    obtain ⟨t, ht, h⟩ := Option.bind_eq_some_iff.mp h
    refine ⟨t, ⟨depth, ht⟩, ?_⟩
    split at h
    · exact (Option.some.inj h).symm
    · obtain ⟨u, hu, rfl⟩ := Option.map_eq_some_iff.mp h
      exact ⟨u, ⟨depth, hu⟩, rfl⟩
  · rintro ⟨t, ⟨depth, ht⟩, h⟩
    rcases hstop : t.stopped with _ | reason <;> simp only [hstop] at h
    · -- The two walks may go to different depths; the deeper one is enough for both.
      obtain ⟨u, ⟨depth', hu⟩, rfl⟩ := h
      have ht' := siblings_of_le (fun _ _ _ ↦ visit_of_le (Nat.le_max_left depth depth')) ht
      have hu' := siblings_of_le (fun _ _ _ ↦ visit_of_le (Nat.le_max_right depth depth')) hu
      refine ⟨max depth depth', ?_⟩
      rw [Node.walkAll, siblings_append, ht', Option.bind_some, hstop, hu']
      rfl
    · refine ⟨depth, ?_⟩
      rw [Node.walkAll, siblings_append, show siblings _ s xs = some t from ht, Option.bind_some,
        hstop, h]

/-- Nodes are walked in place one after the other. A walk of two sequences, one behind the other,
ends if the walks of both do, the second from the state that the first leaves, and leaves what they
leave; if the first stops, the second sequence is left as it is. Each node leaves at most one. -/
theorem Node.walkAll_append (v : Visitor σ ε) (follow : Bool) (s : σ) (xs ys : List Node) :
    (∀ depth, walkAll v follow depth s xs = sweep (visit v follow depth) s 0 xs) ∧
    (∀ w, v.Leaves follow s (xs ++ ys) w ↔ ∃ t, v.Leaves follow s xs t ∧
      match t.stopped with
      | some _ => w = { t with left := t.left ++ ys }
      | none => ∃ u, v.Leaves follow t.state ys u ∧ w = { u with left := t.left ++ u.left }) ∧
    ∀ t, v.Leaves follow s xs t → ∃ parts, v.Parts follow s xs parts ∧
      t.left = parts.reduceOption :=
  ⟨fun _ ↦ siblings_eq_sweep s xs, fun _ ↦ Visitor.leaves_append_iff,
    fun _ h ↦ h.exists_parts⟩

/-- A visitor that counts its meetings and goes by the lines of nodes. On the way back it puts the
count in the place of a yield point. -/
def lineVisitor : Visitor Nat String where
  before s n := ⟨s + 1, n,
    match n.position.line with
    | 1 => .ok .remove
    | 2 => .ok (.replace (.group ⟨[n], n.position⟩))
    | 3 => .ok .skip
    | 4 => .error "line 4"
    | _ => .ok .proceed⟩
  after s n :=
    match n with
    | .yield p => ⟨s + 1, .yield { p with line := s }, .ok .proceed⟩
    | n => ⟨s + 1, n, .ok .proceed⟩

/-- Two nodes to be taken out, one to be replaced, one to be skipped and another to be taken out. -/
def linedNodes : List Node :=
  [.text "a" ⟨none, 1⟩, .text "b" ⟨none, 1⟩, .text "c" ⟨none, 2⟩, .text "d" ⟨none, 3⟩,
    .text "e" ⟨none, 1⟩]

/-- A node to be changed in place, one with the node inside at which the walk stops, and another. -/
def moreLinedNodes : List Node :=
  [.yield ⟨none, 5⟩,
    .tag ⟨"p", false, ⟨none, 5⟩⟩ ⟨[.text "f" ⟨none, 1⟩, .text "g" ⟨none, 4⟩], ⟨none, 5⟩⟩,
    .text "h" ⟨none, 1⟩]

theorem Node.walkAll_append_linedNodes :
    lineVisitor.Leaves false 0 linedNodes
      ⟨6, [.group ⟨[.text "c" ⟨none, 2⟩], ⟨none, 2⟩⟩, .text "d" ⟨none, 3⟩], none⟩ ∧
    lineVisitor.Leaves false 0 (linedNodes ++ moreLinedNodes)
      ⟨11, [.group ⟨[.text "c" ⟨none, 2⟩], ⟨none, 2⟩⟩, .text "d" ⟨none, 3⟩, .yield ⟨none, 7⟩,
        .tag ⟨"p", false, ⟨none, 5⟩⟩ ⟨[.text "g" ⟨none, 4⟩], ⟨none, 5⟩⟩, .text "h" ⟨none, 1⟩],
        some "line 4"⟩ := by
  have hfirst : lineVisitor.Leaves false 0 linedNodes
      ⟨6, [.group ⟨[.text "c" ⟨none, 2⟩], ⟨none, 2⟩⟩, .text "d" ⟨none, 3⟩], none⟩ := ⟨1, rfl⟩
  have hsecond : lineVisitor.Leaves false 6 moreLinedNodes
      ⟨11, [.yield ⟨none, 7⟩,
        .tag ⟨"p", false, ⟨none, 5⟩⟩ ⟨[.text "g" ⟨none, 4⟩], ⟨none, 5⟩⟩, .text "h" ⟨none, 1⟩],
        some "line 4"⟩ := ⟨2, rfl⟩
  obtain ⟨-, happend, -⟩ := walkAll_append lineVisitor false 0 linedNodes moreLinedNodes
  exact ⟨hfirst, (happend _).mpr ⟨_, hfirst, _, hsecond, rfl⟩⟩

end Templating
