import Mathlib.Data.List.Forall2
import Templating.Proofs.Walk.Places
import Templating.Walk.Rules

/-!
# The calls of a walk

A visitor meets nodes at moments, before and after what is inside them. What a walk does with a
visitor is told by the list of its calls, each with the place of the node it is about
(`Walk.Disciplined`): in which order they come, which nodes are met, and as what they stand when
they are met again. Such lists are put together from those of the parts of a tree.
-/

namespace Templating

/-- A call of a visitor: what it met, and what it decided. -/
structure Call (ε : Type) where
  moment : Moment
  node : Node
  answer : Except ε Visit

/-- The visitor with a record of its calls. -/
def Visitor.recording {σ ε : Type} (v : Visitor σ ε) : Visitor (σ × List (Call ε)) ε where
  before s n :=
    let m := v.before s.1 n
    ⟨(m.state, s.2 ++ [⟨.before, n, m.decision⟩]), m.node, m.decision⟩
  after s n :=
    let m := v.after s.1 n
    ⟨(m.state, s.2 ++ [⟨.after, n, m.decision⟩]), m.node, m.decision⟩

@[simp]
theorem Visitor.recording_before {σ ε : Type} (v : Visitor σ ε) (s : σ) (calls : List (Call ε))
    (n : Node) :
    v.recording.before (s, calls) n =
      ⟨((v.before s n).state, calls ++ [⟨.before, n, (v.before s n).decision⟩]),
        (v.before s n).node, (v.before s n).decision⟩ := rfl

@[simp]
theorem Visitor.recording_after {σ ε : Type} (v : Visitor σ ε) (s : σ) (calls : List (Call ε))
    (n : Node) :
    v.recording.after (s, calls) n =
      ⟨((v.after s n).state, calls ++ [⟨.after, n, (v.after s n).decision⟩]),
        (v.after s n).node, (v.after s n).decision⟩ := rfl

/-- The visitor changes no node in place. -/
structure Visitor.Gentle {σ ε : Type} (v : Visitor σ ε) : Prop where
  before : ∀ s n, (v.before s n).node = n
  after : ∀ s n, (v.after s n).node = n

/-- A node is met again when it was entered or replaced. -/
def Visit.returns : Visit → Bool
  | .proceed => true
  | .replace _ => true
  | _ => false

namespace Fate

variable {ε : Type}

/-- What is left of a node among others. -/
def kept? : Fate ε → Option Node
  | .kept n => some n
  | _ => none

/-- What is left of the root of a tree. -/
def root : Fate ε → Node
  | .kept n => n
  | .removed n => .group ⟨[], n.position⟩
  | .stopped n _ => n

/-- Why the walk stopped. -/
def stopped? : Fate ε → Option ε
  | .stopped _ reason => some reason
  | _ => none

end Fate

namespace Walk

open Node (under?)

/-- A call with the place of the node that it is about. -/
structure Entry (ε : Type) where
  place : List Branch
  call : Call ε

variable {σ ε : Type}

/-- The time of a call. -/
def Entry.time (e : Entry ε) : List Branch × Moment := (e.place, e.call.moment)

/-- The call in a tree that hangs on a branch. -/
def Entry.below (b : Branch) (e : Entry ε) : Entry ε := { e with place := b :: e.place }

/-- The order of calls: what is inside a node comes between the two calls about it, and what is
inside one node before what is inside the next. -/
inductive Sooner : List Branch × Moment → List Branch × Moment → Prop
  | around {p : List Branch} : Sooner (p, .before) (p, .after)
  | into {p q : List Branch} {m : Moment} (hq : q ≠ []) : Sooner (p, .before) (p ++ q, m)
  | out {p q : List Branch} {m : Moment} (hq : q ≠ []) : Sooner (p ++ q, m) (p, .after)
  | across {p q q' : List Branch} {b b' : Branch} {m m' : Moment} (h : b.Lt b') :
    Sooner (p ++ b :: q, m) (p ++ b' :: q', m')

/-- All nodes around a place were entered. -/
def Opened (tree : List Branch → Option Node) (log : List (Entry ε)) (p : List Branch) : Prop :=
  ∀ q m, tree q = some m → q <+: p → q ≠ p → ⟨q, .before, m, .ok .proceed⟩ ∈ log

/-- What became of the node at a place, told by its calls. -/
inductive Ends (log : List (Entry ε)) (p : List Branch) (n : Node) : Fate ε → Prop
  | skipped (h : ⟨p, .before, n, .ok .skip⟩ ∈ log) : Ends log p n (.kept n)
  | dropped (h : ⟨p, .before, n, .ok .remove⟩ ∈ log) : Ends log p n (.removed n)
  | left {m : Node} {v : Visit} (h : ⟨p, .after, m, .ok v⟩ ∈ log) (hv : v = .proceed ∨ v = .skip) :
    Ends log p n (.kept m)
  | replaced {m r : Node} (h : ⟨p, .after, m, .ok (.replace r)⟩ ∈ log) : Ends log p n (.kept r)
  | removed {m : Node} (h : ⟨p, .after, m, .ok .remove⟩ ∈ log) : Ends log p n (.removed m)

/-- What became of the document of the node at a place. -/
inductive DocumentEnds (follow : Bool) (log : List (Entry ε)) (p : List Branch) (n : Node) :
    Option Node → Prop
  | unmet (h : n.child? follow .document = none) : DocumentEnds follow log p n n.document?
  | met {d : Node} {fate : Fate ε} (h : n.child? follow .document = some d)
    (hd : Ends log (p ++ [.document]) d fate) : DocumentEnds follow log p n (some fate.root)

/-- What became of nodes next to each other, the first of them numbered `k`. -/
def RowEnds (log : List (Entry ε)) (p : List Branch) (k : Nat) (ns : List Node)
    (fates : List (Fate ε)) : Prop :=
  List.Forall₂ (fun c fate ↦ Ends log (p ++ [.carried c.2]) c.1 fate) (ns.zipIdx k) fates

/-- As what the node at a place stands when it is met again: as its replacement, or with what became
of its document and of the nodes that it carries. -/
inductive Stands (follow : Bool) (log : List (Entry ε)) (p : List Branch) (n : Node) : Node → Prop
  | replaced {r : Node} (h : ⟨p, .before, n, .ok (.replace r)⟩ ∈ log) : Stands follow log p n r
  | entered {d : Option Node} {fates : List (Fate ε)} (h : ⟨p, .before, n, .ok .proceed⟩ ∈ log)
    (hd : DocumentEnds follow log p n d) (hfates : RowEnds log p 0 n.carried fates) :
    Stands follow log p n ((n.setDocument d).withCarried (fates.filterMap Fate.kept?))

/-- What a walk through a tree calls for, all of it or up to the call that stops the walk. -/
structure Disciplined (follow : Bool) (tree : List Branch → Option Node) (log : List (Entry ε))
    (stopped : Prop) : Prop where
  /-- The calls come in order. -/
  ordered : log.Pairwise fun e e' ↦ Sooner e.time e'.time
  /-- A node is met as it is in the tree, and when all nodes around it were entered. -/
  meets : ∀ e ∈ log, e.call.moment = .before →
    tree e.place = some e.call.node ∧ Opened tree log e.place
  /-- A node is met when all nodes around it were entered, if the walk gets there. -/
  met : ∀ p n, tree p = some n → Opened tree log p →
    (∃ a, ⟨p, .before, n, a⟩ ∈ log) ∨ (stopped ∧ ∀ e ∈ log, Sooner e.time (p, .before))
  /-- A node is met again as what it then stands as. -/
  meetsAgain : ∀ e ∈ log, e.call.moment = .after →
    ∃ n, tree e.place = some n ∧ Stands follow log e.place n e.call.node
  /-- A node that was entered or replaced is met again, if the walk gets there. -/
  metAgain : ∀ p n v, ⟨p, .before, n, .ok v⟩ ∈ log → v.returns →
    (∃ m a, ⟨p, .after, m, a⟩ ∈ log) ∨ (stopped ∧ ∀ e ∈ log, Sooner e.time (p, .after))

/-- No call fails, or only the last one, for which the walk stops. -/
inductive Halts : List (Entry ε) → Option ε → Prop
  | never {log : List (Entry ε)} (h : ∀ e ∈ log, ∀ reason, e.call.answer ≠ .error reason) :
    Halts log none
  | last {log : List (Entry ε)} {e : Entry ε} {reason : ε}
    (h : ∀ e ∈ log, ∀ reason, e.call.answer ≠ .error reason)
    (he : e.call.answer = .error reason) : Halts (log ++ [e]) (some reason)

variable {follow : Bool} {tree tree' : List Branch → Option Node}
  {forest forest' : Branch → Option Node} {log log' : List (Entry ε)} {e : Entry ε}
  {stopped stopped' : Prop} {p q : List Branch} {b : Branch} {n m : Node} {fate : Fate ε}

/-! ### Order -/

theorem not_sooner_begin {t : List Branch × Moment} : ¬ Sooner t ([], .before) := by
  intro h
  generalize he : (([], .before) : List Branch × Moment) = t' at h
  cases h with
  | into hq => exact hq (List.append_eq_nil_iff.mp (Prod.mk.inj he).1.symm).2
  | _ => simp at he

theorem not_end_sooner {t : List Branch × Moment} : ¬ Sooner ([], .after) t := by
  intro h
  generalize he : (([], .after) : List Branch × Moment) = t' at h
  cases h with
  | out hq => exact hq (List.append_eq_nil_iff.mp (Prod.mk.inj he).1.symm).2
  | _ => simp at he

theorem Sooner.of_cons {b' : Branch} {m m' : Moment} (h : Sooner (b :: p, m) (b' :: q, m')) :
    b.Lt b' ∨ (b = b' ∧ Sooner (p, m) (q, m')) := by
  generalize ht : (b :: p, m) = t at h
  generalize ht' : (b' :: q, m') = t' at h
  cases h with
  | around =>
    cases ht
    cases ht'
    exact .inr ⟨rfl, .around⟩
  | into hq =>
    cases ht
    cases ht'
    exact .inr ⟨rfl, .into hq⟩
  | out hq =>
    cases ht'
    cases ht
    exact .inr ⟨rfl, .out hq⟩
  | @across r _ _ _ _ _ _ hb =>
    cases r with
    | nil =>
      cases ht
      cases ht'
      exact .inl hb
    | cons c r =>
      cases ht
      cases ht'
      exact .inr ⟨rfl, .across hb⟩

theorem Sooner.asymm {m m' : Moment} (h : Sooner (p, m) (q, m')) : ¬ Sooner (q, m') (p, m) := by
  induction p generalizing q with
  | nil =>
    cases m with
    | before => exact not_sooner_begin
    | after => exact absurd h not_end_sooner
  | cons b p ih =>
    cases q with
    | nil =>
      cases m' with
      | before => exact absurd h not_sooner_begin
      | after => exact not_end_sooner
    | cons b' q =>
      intro h'
      rcases h.of_cons with hb | ⟨rfl, hpq⟩
      · rcases h'.of_cons with hb' | ⟨hb', -⟩
        · exact hb.asymm hb'
        · exact hb.ne hb'.symm
      · rcases h'.of_cons with hb' | ⟨-, hqp⟩
        · exact hb'.ne rfl
        · exact ih hpq hqp

theorem Sooner.below {m m' : Moment} (h : Sooner (p, m) (q, m')) (b : Branch) :
    Sooner (b :: p, m) (b :: q, m') := by
  cases h with
  | around => exact .around
  | into hq => exact .into (p := b :: p) hq
  | out hq => exact .out (p := b :: q) hq
  | @across p _ _ _ _ _ _ h => exact .across (p := b :: p) h

/-- No moment of a node is called for twice. -/
theorem Disciplined.nodup (h : Disciplined follow tree log stopped) :
    (log.map Entry.time).Nodup := by
  refine List.pairwise_map.mpr (h.ordered.imp ?_)
  intro e e' he heq
  rw [heq] at he
  exact he.asymm he

/-! ### Longer lists of calls -/

theorem Ends.mono (h : Ends log p n fate) (hlog : log ⊆ log') : Ends log' p n fate := by
  cases h with
  | skipped h => exact .skipped (hlog h)
  | dropped h => exact .dropped (hlog h)
  | left h hv => exact .left (hlog h) hv
  | replaced h => exact .replaced (hlog h)
  | removed h => exact .removed (hlog h)

theorem DocumentEnds.mono {d : Option Node} (h : DocumentEnds follow log p n d)
    (hlog : log ⊆ log') : DocumentEnds follow log' p n d := by
  cases h with
  | unmet h => exact .unmet h
  | met h hd => exact .met h (hd.mono hlog)

theorem RowEnds.mono {k : Nat} {ns : List Node} {fates : List (Fate ε)}
    (h : RowEnds log p k ns fates) (hlog : log ⊆ log') : RowEnds log' p k ns fates :=
  List.Forall₂.imp (fun _ _ h ↦ h.mono hlog) h

theorem Stands.mono (h : Stands follow log p n m) (hlog : log ⊆ log') :
    Stands follow log' p n m := by
  cases h with
  | replaced h => exact .replaced (hlog h)
  | entered h hd hfates => exact .entered (hlog h) (hd.mono hlog) (hfates.mono hlog)

/-! ### Opened places -/

theorem opened_nil : Opened tree log [] := fun _ _ _ hq hne ↦ absurd (List.prefix_nil.mp hq) hne

/-- Around a place in a tree are the root and the nodes around the place inside. -/
theorem opened_at?_cons : Opened (n.at? follow) log (b :: p) ↔
    ⟨[], .before, n, .ok .proceed⟩ ∈ log ∧
      Opened (under? follow (n.child? follow)) log (b :: p) := by
  constructor
  · intro h
    refine ⟨h [] n rfl List.nil_prefix nofun, ?_⟩
    intro q m hm hq hne
    obtain ⟨b', q, _, rfl, -, -⟩ := Node.under?_eq_some_iff.mp hm
    exact h _ m hm hq hne
  · rintro ⟨hroot, h⟩ q m hm hq hne
    cases q with
    | nil =>
      cases hm
      exact hroot
    | cons b' q => exact h _ m hm hq hne

/-- Whether a place is open depends on the calls about the nodes around it alone. -/
theorem Opened.congr (h : Opened tree log p)
    (htree : ∀ q m, q <+: p → tree' q = some m → tree q = some m)
    (hlog : ∀ q m a, q <+: p → tree' q = some m → ⟨q, a⟩ ∈ log → ⟨q, a⟩ ∈ log') :
    Opened tree' log' p :=
  fun q m hm hq hne ↦ hlog q m _ hq hm (h q m (htree q m hq hm) hq hne)

/-- Around a place inside an entered node are the node and the nodes around the place inside. -/
theorem opened_inside_iff (hroot : ⟨[], .before, n, .ok .proceed⟩ ∈ log')
    (hinside : ∀ b p a, ⟨b :: p, a⟩ ∈ log' ↔ ⟨b :: p, a⟩ ∈ log) :
    Opened (n.at? follow) log' (b :: p) ↔
      Opened (under? follow (n.child? follow)) log (b :: p) := by
  rw [opened_at?_cons]
  have hmem {q : List Branch} {m : Node} (hm : under? follow (n.child? follow) q = some m)
      (a : Call ε) : ⟨q, a⟩ ∈ log' ↔ ⟨q, a⟩ ∈ log := by
    obtain ⟨b, q, -, rfl, -, -⟩ := Node.under?_eq_some_iff.mp hm
    exact hinside b q a
  constructor
  · exact fun hopen ↦ hopen.2.congr (fun _ _ _ hm ↦ hm) fun _ _ a _ hm ↦ (hmem hm a).mp
  · exact fun hopen ↦
      ⟨hroot, hopen.congr (fun _ _ _ hm ↦ hm) fun _ _ a _ hm ↦ (hmem hm a).mpr⟩

theorem Disciplined.exists_node (h : Disciplined follow tree log stopped) (he : e ∈ log) :
    ∃ m, tree e.place = some m := by
  rcases hmoment : e.call.moment with _ | _
  · exact ⟨_, (h.meets e he hmoment).1⟩
  · obtain ⟨m, hm, -⟩ := h.meetsAgain e he hmoment
    exact ⟨m, hm⟩

theorem Disciplined.imp (h : Disciplined follow tree log stopped) (hstopped : stopped → stopped') :
    Disciplined follow tree log stopped' where
  ordered := h.ordered
  meets := h.meets
  met p n hn hp := (h.met p n hn hp).imp_right (And.imp_left hstopped)
  meetsAgain := h.meetsAgain
  metAgain p n v hn hv := (h.metAgain p n v hn hv).imp_right (And.imp_left hstopped)

/-- Where there is nothing to meet, or the walk does not get, there are no calls. -/
theorem disciplined_nil (h : ∀ p n, tree p = some n → stopped) :
    Disciplined follow tree ([] : List (Entry ε)) stopped where
  ordered := .nil
  meets := nofun
  met p n hn _ := .inr ⟨h p n hn, nofun⟩
  meetsAgain := nofun
  metAgain := nofun

/-! ### Trees on branches -/

@[simp]
theorem mem_below_iff {a : Call ε} :
    ⟨b :: p, a⟩ ∈ log.map (Entry.below b) ↔ ⟨p, a⟩ ∈ log := by
  constructor
  · intro h
    obtain ⟨e, he, heq⟩ := List.mem_map.mp h
    cases heq
    exact he
  · exact List.mem_map_of_mem

theorem Ends.below (h : Ends log p n fate) (b : Branch) :
    Ends (log.map (Entry.below b)) (b :: p) n fate := by
  cases h with
  | skipped h => exact .skipped (mem_below_iff.mpr h)
  | dropped h => exact .dropped (mem_below_iff.mpr h)
  | left h hv => exact .left (mem_below_iff.mpr h) hv
  | replaced h => exact .replaced (mem_below_iff.mpr h)
  | removed h => exact .removed (mem_below_iff.mpr h)

theorem Stands.below (h : Stands follow log p n m) (b : Branch) :
    Stands follow (log.map (Entry.below b)) (b :: p) n m := by
  cases h with
  | replaced h => exact .replaced (mem_below_iff.mpr h)
  | entered h hd hfates =>
    refine .entered (mem_below_iff.mpr h) ?_ (List.Forall₂.imp (fun _ _ h ↦ h.below b) hfates)
    cases hd with
    | unmet h => exact .unmet h
    | met h hd => exact .met h (hd.below b)

theorem opened_below_iff :
    Opened (under? follow (Node.hung b n)) (log.map (Entry.below b)) (b :: p) ↔
      Opened (n.at? follow) log p := by
  constructor
  · intro h q m hm hq hne
    exact mem_below_iff.mp (h (b :: q) m (Node.under?_hung_iff.mpr ⟨q, rfl, hm⟩)
      (List.cons_prefix_cons.mpr ⟨rfl, hq⟩) (by simpa using hne))
  · intro h q' m hm' hq hne
    obtain ⟨q, rfl, hm⟩ := Node.under?_hung_iff.mp hm'
    exact mem_below_iff.mpr (h q m hm (List.cons_prefix_cons.mp hq).2 (by simpa using hne))

/-- A walk through the tree on a branch. -/
theorem Disciplined.below (h : Disciplined follow (n.at? follow) log stopped) (b : Branch) :
    Disciplined follow (under? follow (Node.hung b n)) (log.map (Entry.below b)) stopped where
  ordered := List.pairwise_map.mpr (h.ordered.imp fun h ↦ h.below b)
  meets := by
    refine List.forall_mem_map.mpr fun e he hbefore ↦ ?_
    obtain ⟨hn, hopen⟩ := h.meets e he hbefore
    exact ⟨Node.under?_hung_iff.mpr ⟨_, rfl, hn⟩, opened_below_iff.mpr hopen⟩
  met p' m hm' hopen := by
    obtain ⟨p, rfl, hm⟩ := Node.under?_hung_iff.mp hm'
    rcases h.met p m hm (opened_below_iff.mp hopen) with ⟨a, ha⟩ | ⟨hstopped, hall⟩
    · exact .inl ⟨a, mem_below_iff.mpr ha⟩
    · exact .inr ⟨hstopped, List.forall_mem_map.mpr fun e he ↦ (hall e he).below b⟩
  meetsAgain := by
    refine List.forall_mem_map.mpr fun e he hafter ↦ ?_
    obtain ⟨m, hm, hstands⟩ := h.meetsAgain e he hafter
    exact ⟨m, Node.under?_hung_iff.mpr ⟨_, rfl, hm⟩, hstands.below b⟩
  metAgain p' m v hm hv := by
    obtain ⟨⟨p, _⟩, he, heq⟩ := List.mem_map.mp hm
    cases heq
    rcases h.metAgain p m v he hv with ⟨r, a, ha⟩ | ⟨hstopped, hall⟩
    · exact .inl ⟨r, a, mem_below_iff.mpr ha⟩
    · exact .inr ⟨hstopped, List.forall_mem_map.mpr fun e he ↦ (hall e he).below b⟩

/-! ### Trees next to each other -/

theorem sooner_of_apart (hapart : Node.Apart forest forest') {t t' : Moment}
    (hn : under? follow forest p = some n) (hm : under? follow forest' q = some m) :
    Sooner (p, t) (q, t') := by
  obtain ⟨b, p, n, rfl, hn, -⟩ := Node.under?_eq_some_iff.mp hn
  obtain ⟨b', q, m, rfl, hm, -⟩ := Node.under?_eq_some_iff.mp hm
  exact .across (p := []) (hapart b b' n m hn hm)

/-- A walk through trees, and then through more trees after them, unless it has stopped. -/
theorem Disciplined.append (h : Disciplined follow (under? follow forest) log stopped)
    (h' : Disciplined follow (under? follow forest') log' stopped')
    (hapart : Node.Apart forest forest') (hstop : stopped → log' = [] ∧ stopped') :
    Disciplined follow (under? follow (Node.beside forest forest')) (log ++ log') stopped' := by
  have hboth {p : List Branch} {n : Node} :
      under? follow (Node.beside forest forest') p = some n ↔
        under? follow forest p = some n ∨ under? follow forest' p = some n :=
    Node.under?_beside_iff hapart
  have hsooner : ∀ e ∈ log, ∀ {q : List Branch} {m : Node} {t : Moment},
      under? follow forest' q = some m → Sooner e.time (q, t) := by
    intro e he q m t hm
    obtain ⟨n, hn⟩ := h.exists_node he
    exact sooner_of_apart hapart hn hm
  -- what is around a place in one of the parts, and the calls about it, are in that part
  have hleft {p : List Branch} {n : Node} (hn : under? follow forest p = some n) :
      Opened (under? follow (Node.beside forest forest')) (log ++ log') p ↔
        Opened (under? follow forest) log p := by
    constructor
    · intro hopen
      refine hopen.congr (fun q m _ hm ↦ hboth.mpr (.inl hm)) fun q m a _ hm hmem ↦ ?_
      refine (List.mem_append.mp hmem).resolve_right fun hmem ↦ ?_
      obtain ⟨m', hm'⟩ := h'.exists_node hmem
      exact (hapart.not_prefix hm hm').1 List.prefix_rfl
    · intro hopen
      refine hopen.congr (fun q m hq hm ↦ ?_) fun _ _ _ _ _ ↦ List.mem_append_left _
      exact (hboth.mp hm).resolve_right fun hm ↦ (hapart.not_prefix hn hm).2 hq
  have hright {p : List Branch} {n : Node} (hn : under? follow forest' p = some n) :
      Opened (under? follow (Node.beside forest forest')) (log ++ log') p ↔
        Opened (under? follow forest') log' p := by
    constructor
    · intro hopen
      refine hopen.congr (fun q m _ hm ↦ hboth.mpr (.inr hm)) fun q m a _ hm hmem ↦ ?_
      refine (List.mem_append.mp hmem).resolve_left fun hmem ↦ ?_
      obtain ⟨m', hm'⟩ := h.exists_node hmem
      exact (hapart.not_prefix hm' hm).1 List.prefix_rfl
    · intro hopen
      refine hopen.congr (fun q m hq hm ↦ ?_) fun _ _ _ _ _ ↦ List.mem_append_right _
      exact (hboth.mp hm).resolve_left fun hm ↦ (hapart.not_prefix hm hn).1 hq
  constructor
  case ordered =>
    refine List.pairwise_append.mpr ⟨h.ordered, h'.ordered, fun e he e' he' ↦ ?_⟩
    obtain ⟨m, hm⟩ := h'.exists_node he'
    exact hsooner e he hm
  case meets =>
    intro e he hbefore
    rcases List.mem_append.mp he with he | he
    · obtain ⟨hn, hopen⟩ := h.meets e he hbefore
      exact ⟨hboth.mpr (.inl hn), (hleft hn).mpr hopen⟩
    · obtain ⟨hn, hopen⟩ := h'.meets e he hbefore
      exact ⟨hboth.mpr (.inr hn), (hright hn).mpr hopen⟩
  case met =>
    intro p n hn hopen
    rcases hboth.mp hn with hn | hn
    · rcases h.met p n hn ((hleft hn).mp hopen) with ⟨a, ha⟩ | ⟨hstopped, hall⟩
      · exact .inl ⟨a, List.mem_append_left _ ha⟩
      · obtain ⟨rfl, hstopped'⟩ := hstop hstopped
        exact .inr ⟨hstopped', by simpa using hall⟩
    · rcases h'.met p n hn ((hright hn).mp hopen) with ⟨a, ha⟩ | ⟨hstopped', hall⟩
      · exact .inl ⟨a, List.mem_append_right _ ha⟩
      · exact .inr ⟨hstopped', List.forall_mem_append.mpr ⟨fun e he ↦ hsooner e he hn, hall⟩⟩
  case meetsAgain =>
    intro e he hafter
    rcases List.mem_append.mp he with he | he
    · obtain ⟨n, hn, hstands⟩ := h.meetsAgain e he hafter
      exact ⟨n, hboth.mpr (.inl hn), hstands.mono (List.subset_append_left _ _)⟩
    · obtain ⟨n, hn, hstands⟩ := h'.meetsAgain e he hafter
      exact ⟨n, hboth.mpr (.inr hn), hstands.mono (List.subset_append_right _ _)⟩
  case metAgain =>
    intro p n v hn hv
    rcases List.mem_append.mp hn with hn | hn
    · rcases h.metAgain p n v hn hv with ⟨m, a, ha⟩ | ⟨hstopped, hall⟩
      · exact .inl ⟨m, a, List.mem_append_left _ ha⟩
      · obtain ⟨rfl, hstopped'⟩ := hstop hstopped
        exact .inr ⟨hstopped', by simpa using hall⟩
    · rcases h'.metAgain p n v hn hv with ⟨m, a, ha⟩ | ⟨hstopped', hall⟩
      · exact .inl ⟨m, a, List.mem_append_right _ ha⟩
      · obtain ⟨m, hm⟩ := h'.exists_node hn
        exact .inr ⟨hstopped', List.forall_mem_append.mpr ⟨fun e he ↦ hsooner e he hm, hall⟩⟩

/-- When a walk stops in some trees, no more is called for. -/
theorem Disciplined.cut (h : Disciplined follow (under? follow forest) log stopped)
    (hapart : Node.Apart forest forest') (hstopped : stopped) :
    Disciplined follow (under? follow (Node.beside forest forest')) log stopped := by
  have hnone : Disciplined follow (under? follow forest') ([] : List (Entry ε)) stopped :=
    disciplined_nil fun _ _ _ ↦ hstopped
  simpa using h.append hnone hapart fun hstopped ↦ ⟨rfl, hstopped⟩

/-! ### A tree with its root -/

/-- A root that is neither entered nor replaced is not met again, and nothing inside is met. -/
theorem disciplined_refused {a : Except ε Visit} (ha : ∀ v, a = .ok v → v.returns = false) :
    Disciplined follow (n.at? follow) [⟨[], .before, n, a⟩] stopped where
  ordered := List.pairwise_singleton _ _
  meets := by simp [opened_nil, Node.at?]
  met p m hm hopen := by
    cases p with
    | nil =>
      cases hm
      exact .inl ⟨a, List.mem_singleton_self _⟩
    | cons b p =>
      have hroot := (opened_at?_cons.mp hopen).1
      simp only [List.mem_singleton, Entry.mk.injEq, Call.mk.injEq, true_and] at hroot
      exact nomatch ha _ hroot.symm
  meetsAgain := by simp
  metAgain p m v hm hv := by
    simp only [List.mem_singleton, Entry.mk.injEq, Call.mk.injEq] at hm
    rw [ha v hm.2.2.2.symm] at hv
    exact nomatch hv

/-- A root that is replaced is met again as its replacement, and nothing inside is met. -/
theorem disciplined_replaced {r : Node} {a : Except ε Visit} :
    Disciplined follow (n.at? follow)
      [⟨[], .before, n, .ok (.replace r)⟩, ⟨[], .after, r, a⟩] stopped where
  ordered := List.pairwise_pair.mpr .around
  meets := by simp [opened_nil, Node.at?]
  met p m hm hopen := by
    cases p with
    | nil =>
      cases hm
      exact .inl ⟨_, List.mem_cons_self⟩
    | cons b p => simpa using (opened_at?_cons.mp hopen).1
  meetsAgain e he hafter := by
    have he : e = ⟨[], .after, r, a⟩ := by
      rcases List.mem_pair.mp he with rfl | rfl
      · exact nomatch hafter
      · rfl
    subst he
    exact ⟨n, rfl, .replaced List.mem_cons_self⟩
  metAgain p m v hm hv := by
    have hp : p = [] := by
      rcases List.mem_pair.mp hm with hm | hm
      · cases hm
        rfl
      · cases hm
    subst hp
    exact .inl ⟨r, a, by simp⟩

/-- A root that is entered is met again when the walk has gone through everything inside. -/
theorem Disciplined.entered
    (h : Disciplined follow (under? follow (n.child? follow)) log stopped) {rest : List (Entry ε)}
    (hrest : stopped ∧ rest = [] ∨ ¬ stopped ∧ ∃ m a, rest = [⟨[], .after, m, a⟩] ∧
      Stands follow (⟨[], .before, n, .ok .proceed⟩ :: log) [] n m) :
    Disciplined follow (n.at? follow)
      (⟨[], .before, n, .ok .proceed⟩ :: (log ++ rest)) stopped := by
  have hsub : log ⊆ ⟨[], .before, n, .ok .proceed⟩ :: (log ++ rest) :=
    fun _ he ↦ List.mem_cons_of_mem _ (List.mem_append_left _ he)
  have hplace : ∀ e ∈ log, e.place ≠ [] := by
    intro e he
    obtain ⟨m, hm⟩ := h.exists_node he
    exact Node.under?_ne_nil hm
  have hend : ∀ e ∈ rest, e.time = ([], .after) := by
    rcases hrest with ⟨-, rfl⟩ | ⟨-, m, a, rfl, -⟩
    · nofun
    · simp [Entry.time]
  have hmem (b : Branch) (p : List Branch) (c : Call ε) :
      ⟨b :: p, c⟩ ∈ ⟨[], .before, n, .ok .proceed⟩ :: (log ++ rest) ↔ ⟨b :: p, c⟩ ∈ log := by
    refine ⟨fun he ↦ ?_, fun he ↦ hsub he⟩
    rcases List.mem_cons.mp he with he | he
    · cases he
    · exact (List.mem_append.mp he).resolve_right fun he ↦ nomatch hend _ he
  have hopened {b : Branch} {p : List Branch} :
      Opened (n.at? follow) (⟨[], .before, n, .ok .proceed⟩ :: (log ++ rest)) (b :: p) ↔
        Opened (under? follow (n.child? follow)) log (b :: p) :=
    opened_inside_iff List.mem_cons_self hmem
  -- if the walk stopped inside, the calls are those of the root and inside, and no more
  have hcut {t : List Branch × Moment} (hstopped : stopped) (hroot : Sooner ([], .before) t)
      (hall : ∀ e ∈ log, Sooner e.time t) :
      ∀ e ∈ ⟨[], .before, n, .ok .proceed⟩ :: (log ++ rest), Sooner e.time t := by
    obtain ⟨-, rfl⟩ := hrest.resolve_right fun hgo ↦ hgo.1 hstopped
    simpa using ⟨hroot, hall⟩
  constructor
  case ordered =>
    have hfirst : ∀ e ∈ log ++ rest, Sooner ([], .before) e.time := by
      refine List.forall_mem_append.mpr ⟨fun e he ↦ .into (p := []) (hplace e he), ?_⟩
      intro e he
      rw [hend e he]
      exact .around
    have hlast : ∀ e ∈ log, ∀ e' ∈ rest, Sooner e.time e'.time := by
      intro e he e' he'
      rw [hend e' he']
      exact .out (p := []) (hplace e he)
    have hsingle : rest.Pairwise fun e e' ↦ Sooner e.time e'.time := by
      rcases hrest with ⟨-, rfl⟩ | ⟨-, m, a, rfl, -⟩
      · exact .nil
      · exact List.pairwise_singleton _ _
    exact .cons hfirst (List.pairwise_append.mpr ⟨h.ordered, hsingle, hlast⟩)
  case meets =>
    intro e he hbefore
    rcases List.mem_cons.mp he with rfl | he
    · exact ⟨rfl, opened_nil⟩
    rcases List.mem_append.mp he with he | he
    · obtain ⟨hn, hopen⟩ := h.meets e he hbefore
      obtain ⟨b, p, -, hp, -, -⟩ := Node.under?_eq_some_iff.mp hn
      rw [hp] at hopen
      exact ⟨Node.at?_of_under? hn, by rw [hp]; exact hopened.mpr hopen⟩
    · exact nomatch hbefore.symm.trans (Prod.mk.inj (hend e he)).2
  case met =>
    intro p m hm hopen
    cases p with
    | nil =>
      cases hm
      exact .inl ⟨_, List.mem_cons_self⟩
    | cons b p =>
      rcases h.met (b :: p) m hm (hopened.mp hopen) with ⟨a, ha⟩ | ⟨hstopped, hall⟩
      · exact .inl ⟨a, hsub ha⟩
      · exact .inr ⟨hstopped, hcut hstopped (.into (p := []) nofun) hall⟩
  case meetsAgain =>
    intro e he hafter
    rcases List.mem_cons.mp he with rfl | he
    · exact nomatch hafter
    rcases List.mem_append.mp he with he | he
    · obtain ⟨m, hm, hstands⟩ := h.meetsAgain e he hafter
      exact ⟨m, Node.at?_of_under? hm, hstands.mono hsub⟩
    · rcases hrest with ⟨-, rfl⟩ | ⟨-, m, a, rfl, hstands⟩
      · exact nomatch he
      · obtain rfl := List.mem_singleton.mp he
        exact ⟨n, rfl, hstands.mono (List.cons_subset_cons _ (List.subset_append_left _ _))⟩
  case metAgain =>
    intro p m v hm hv
    cases p with
    | nil =>
      rcases hrest with ⟨hstopped, rfl⟩ | ⟨-, m, a, rfl, hstands⟩
      · exact .inr ⟨hstopped, hcut hstopped .around fun e he ↦ .out (p := []) (hplace e he)⟩
      · exact .inl ⟨m, a, by simp⟩
    | cons b p =>
      rcases h.metAgain (b :: p) m v ((hmem b p _).mp hm) hv with ⟨r, a, ha⟩ | ⟨hstopped, hall⟩
      · exact .inl ⟨r, a, hsub ha⟩
      · exact .inr ⟨hstopped, hcut hstopped (.into (p := []) nofun) hall⟩

/-! ### Failures -/

theorem halts_singleton_ok {c : Call ε} {v : Visit} (h : c.answer = .ok v) :
    Halts [⟨p, c⟩] none := by
  refine .never ?_
  simp [h]

theorem halts_singleton_error {c : Call ε} {reason : ε} (h : c.answer = .error reason) :
    Halts [⟨p, c⟩] (some reason) :=
  (Halts.last nofun h : Halts ([] ++ [⟨p, c⟩]) (some reason))

theorem Halts.append {reason? : Option ε} (h : Halts log none) (h' : Halts log' reason?) :
    Halts (log ++ log') reason? := by
  cases h with
  | never h =>
    cases h' with
    | never h' => exact .never (List.forall_mem_append.mpr ⟨h, h'⟩)
    | last h' he =>
      rw [← List.append_assoc]
      exact .last (List.forall_mem_append.mpr ⟨h, h'⟩) he

theorem Halts.below {reason? : Option ε} (h : Halts log reason?) (b : Branch) :
    Halts (log.map (Entry.below b)) reason? := by
  cases h with
  | never h => exact .never (List.forall_mem_map.mpr h)
  | last h he =>
    rw [List.map_append]
    exact .last (List.forall_mem_map.mpr h) he

end Walk

end Templating
