import Templating.Proofs.Walk.Calls

/-!
# The discipline of a walk

A walk of a tree with a visitor that changes no node in place calls for what it should, in order
(`Node.walk_disciplined`). Such a walk enters nodes of the tree alone, so it goes no deeper than
the tree. The walk is followed from its parts, a row of nodes, a document and the inside of a node,
up to a whole tree; each part is walked together with a record of the calls.
-/

namespace Templating

namespace Walk

open Node (under? row ofDocument)

variable {σ ε : Type} {follow : Bool} {s s' : σ} {n m : Node} {ns : List Node} {fate : Fate ε}
  {reason : ε} {log : List (Entry ε)} {v : Visitor σ ε}
  {one : σ → Node → Option (σ × Fate ε)}
  {one' : σ × List (Call ε) → Node → Option ((σ × List (Call ε)) × Fate ε)}

/-! ### Steps of a walk -/

theorem siblings_cons (h : one s n = some (s', fate)) (hgo : fate.stopped? = none) :
    siblings one s (n :: ns) =
      (siblings one s' ns).map fun t ↦ { t with left := fate.kept?.toList ++ t.left } := by
  cases fate with
  | kept m => simp [siblings, h, Fate.kept?]
  | removed m => simp [siblings, h, Fate.kept?]
  | stopped m reason => cases hgo

theorem siblings_cons_stopped (h : one s n = some (s', .stopped m reason)) :
    siblings one s (n :: ns) = some ⟨s', m :: ns, some reason⟩ := by
  simp [siblings, h]

theorem root_eq (h : one s n = some (s', fate)) :
    root one s n = some ⟨s', fate.root, fate.stopped?⟩ := by
  cases fate <;> simp [root, h, Fate.root, Fate.stopped?]

theorem map_call_below (b : Branch) (log : List (Entry ε)) :
    (log.map (Entry.below b)).map Entry.call = log.map Entry.call := by
  rw [List.map_map]
  rfl

/-- From a state of the visitor on, the second walk of a node does what the first does, with the
calls of a disciplined walk added to the record. -/
def RecountsFrom (follow : Bool) (one : σ → Node → Option (σ × Fate ε))
    (one' : σ × List (Call ε) → Node → Option ((σ × List (Call ε)) × Fate ε)) (s : σ) (n : Node) :
    Prop :=
  ∀ calls, ∃ s' fate log, one s n = some (s', fate) ∧
    one' (s, calls) n = some ((s', calls ++ log.map Entry.call), fate) ∧
    Disciplined follow (n.at? follow) log fate.stopped?.isSome ∧ Halts log fate.stopped? ∧
    (fate.stopped? = none → Ends log [] n fate)

/-- From every state of the visitor on, the second walk of a node recounts the first. -/
def Recounts (follow : Bool) (one : σ → Node → Option (σ × Fate ε))
    (one' : σ × List (Call ε) → Node → Option ((σ × List (Call ε)) × Fate ε)) (n : Node) : Prop :=
  ∀ s, RecountsFrom follow one one' s n

/-- Nodes next to each other are walked one after the other. -/
theorem siblings_recounts (hone : ∀ n ∈ ns, Recounts follow one one' n) (k : Nat) (s : σ)
    (calls : List (Call ε)) :
    ∃ s' left stopped log, siblings one s ns = some ⟨s', left, stopped⟩ ∧
      siblings one' (s, calls) ns = some ⟨(s', calls ++ log.map Entry.call), left, stopped⟩ ∧
      Disciplined follow (under? follow (row k ns)) log stopped.isSome ∧ Halts log stopped ∧
      (stopped = none → ∃ fates, RowEnds log [] k ns fates ∧
        left = fates.filterMap Fate.kept?) := by
  induction ns generalizing k s calls with
  | nil =>
    refine ⟨s, [], none, [], rfl, by simp [siblings], disciplined_nil ?_, .never nofun,
      fun _ ↦ ⟨[], .nil, rfl⟩⟩
    intro p n hn
    obtain ⟨b, -, m, -, hm, -⟩ := Node.under?_eq_some_iff.mp hn
    cases b <;> simp [row] at hm
  | cons n ns ih =>
    obtain ⟨s₁, fate, log₁, h₁, h₁', hdisc₁, hhalts₁, hends₁⟩ :=
      hone n List.mem_cons_self s calls
    rw [Node.row_cons]
    rcases hstop : fate.stopped? with _ | reason
    · obtain ⟨s₂, left, stopped, log₂, h₂, h₂', hdisc₂, hhalts₂, hends₂⟩ :=
        ih (fun m hm ↦ hone m (List.mem_cons_of_mem n hm)) (k + 1) s₁
          (calls ++ log₁.map Entry.call)
      rw [hstop] at hdisc₁ hhalts₁
      have hdisc := (hdisc₁.below (.carried k)).append hdisc₂ (Node.apart_row k n ns) (by simp)
      refine ⟨s₂, fate.kept?.toList ++ left, stopped, log₁.map (Entry.below (.carried k)) ++ log₂,
        ?_, ?_, hdisc, (hhalts₁.below _).append hhalts₂, ?_⟩
      · rw [siblings_cons h₁ hstop, h₂]
        rfl
      · rw [siblings_cons h₁' hstop, h₂', List.map_append, map_call_below, List.append_assoc]
        rfl
      · intro hnone
        obtain ⟨fates, hrow, rfl⟩ := hends₂ hnone
        refine ⟨fate :: fates, .cons ?_ (hrow.mono (List.subset_append_right _ _)), ?_⟩
        · exact ((hends₁ hstop).below (.carried k)).mono (List.subset_append_left _ _)
        · cases fate <;> rfl
    · obtain ⟨m, rfl⟩ : ∃ m, fate = .stopped m reason := by
        cases fate <;> simp_all [Fate.stopped?]
      refine ⟨s₁, m :: ns, some reason, log₁.map (Entry.below (.carried k)),
        siblings_cons_stopped h₁, ?_, (hdisc₁.below _).cut (Node.apart_row k n ns) rfl,
        hhalts₁.below _, fun hnone ↦ absurd hnone (Option.some_ne_none reason)⟩
      rw [siblings_cons_stopped h₁', map_call_below]

/-- A loaded document is walked as a tree of its own, if documents are to be followed. -/
theorem document_recounts (hone : ∀ d, n.document? = some d → Recounts follow one one' d) (s : σ)
    (calls : List (Call ε)) :
    ∃ s' d stopped log, document one follow s n.document? = some ⟨s', d, stopped⟩ ∧
      document one' follow (s, calls) n.document? =
        some ⟨(s', calls ++ log.map Entry.call), d, stopped⟩ ∧
      Disciplined follow (under? follow (ofDocument (n.child? follow .document))) log
        stopped.isSome ∧ Halts log stopped ∧ (stopped = none → DocumentEnds follow log [] n d) := by
  rcases hchild : n.child? follow .document with _ | d
  · refine ⟨s, n.document?, none, [], ?_, ?_, disciplined_nil ?_, .never nofun,
      fun _ ↦ .unmet hchild⟩
    · cases hdoc : n.document? <;> simp_all [document, Node.child?]
    · cases hdoc : n.document? <;> simp_all [document, Node.child?]
    · intro p m hm
      obtain ⟨b, -, m, -, hm, -⟩ := Node.under?_eq_some_iff.mp hm
      cases b <;> simp [ofDocument] at hm
  · obtain ⟨rfl, hd⟩ : follow = true ∧ n.document? = some d := by
      simpa [Node.child?, Option.ite_none_right_eq_some] using hchild
    obtain ⟨s', fate, log, h, h', hdisc, hhalts, hends⟩ := hone d hd s calls
    have hforest : ofDocument (some d) = Node.hung .document d := by
      funext b
      cases b <;> rfl
    rw [hd, hforest]
    refine ⟨s', some fate.root, fate.stopped?, log.map (Entry.below .document), ?_, ?_,
      hdisc.below _, hhalts.below _, fun hnone ↦ .met hchild ((hends hnone).below .document)⟩
    · simp [document, root_eq h]
    · rw [map_call_below]
      simp [document, root_eq h']

/-- Inside a node the loaded document is walked first, and then the nodes that it carries. -/
theorem children_recounts (hdocument : ∀ d, n.document? = some d → Recounts follow one one' d)
    (hcarried : ∀ m ∈ n.carried, Recounts follow one one' m) (s : σ) (calls : List (Call ε)) :
    ∃ s' m stopped log, children one follow s n = some ⟨s', m, stopped⟩ ∧
      children one' follow (s, calls) n =
        some ⟨(s', calls ++ log.map Entry.call), m, stopped⟩ ∧
      Disciplined follow (under? follow (n.child? follow)) log stopped.isSome ∧ Halts log stopped ∧
      (stopped = none →
        Stands follow (⟨[], .before, n, .ok .proceed⟩ :: log) [] n m) := by
  obtain ⟨s₁, d, stopped₁, log₁, h₁, h₁', hdisc₁, hhalts₁, hends₁⟩ :=
    document_recounts hdocument s calls
  rw [children_eq, children_eq, h₁, h₁', Node.child?_eq]
  rcases stopped₁ with _ | reason
  · obtain ⟨s₂, left, stopped, log₂, h₂, h₂', hdisc₂, hhalts₂, hends₂⟩ :=
      siblings_recounts hcarried 0 s₁ (calls ++ log₁.map Entry.call)
    have hdisc := hdisc₁.append hdisc₂ (Node.apart_ofDocument _ _) (by simp)
    refine ⟨s₂, (n.setDocument d).withCarried left, stopped, log₁ ++ log₂, ?_, ?_, hdisc,
      hhalts₁.append hhalts₂, ?_⟩
    · simp [h₂]
    · simp [h₂', List.map_append, List.append_assoc]
    · intro hnone
      obtain ⟨fates, hrow, rfl⟩ := hends₂ hnone
      refine .entered List.mem_cons_self ((hends₁ rfl).mono ?_) (hrow.mono ?_)
      · exact List.subset_cons_of_subset _ (List.subset_append_left _ _)
      · exact List.subset_cons_of_subset _ (List.subset_append_right _ _)
  · exact ⟨s₁, n.setDocument d, some reason, log₁, rfl, rfl,
      hdisc₁.cut (Node.apart_ofDocument _ _) rfl, hhalts₁,
      fun hnone ↦ absurd hnone (Option.some_ne_none reason)⟩

/-- The last meeting with a node adds one call, which tells what becomes of it. -/
theorem leave_recording (hv : v.Gentle) (s : σ) (calls : List (Call ε)) (n : Node) :
    ∃ s' fate a, leave v s n = (s', fate) ∧
      leave v.recording (s, calls) n = ((s', calls ++ [⟨.after, n, a⟩]), fate) ∧
      Halts [⟨[], .after, n, a⟩] fate.stopped? ∧
      (fate.stopped? = none → ∀ (log : List (Entry ε)) m, ⟨[], .after, n, a⟩ ∈ log →
        Ends log [] m fate) := by
  have hnode : (v.after s n).node = n := hv.after s n
  rcases hdecision : (v.after s n).decision with reason | _ | _ | r | _
  · refine ⟨(v.after s n).state, .stopped n reason, .error reason, ?_, ?_,
      halts_singleton_error rfl, nofun⟩
    · simp [leave, hdecision, hnode]
    · simp [leave, hdecision, hnode]
  · refine ⟨(v.after s n).state, .kept n, .ok .proceed, ?_, ?_, halts_singleton_ok rfl,
      fun _ _ _ h ↦ .left h (.inl rfl)⟩
    · simp [leave, hdecision, hnode]
    · simp [leave, hdecision, hnode]
  · refine ⟨(v.after s n).state, .kept n, .ok .skip, ?_, ?_, halts_singleton_ok rfl,
      fun _ _ _ h ↦ .left h (.inr rfl)⟩
    · simp [leave, hdecision, hnode]
    · simp [leave, hdecision, hnode]
  · refine ⟨(v.after s n).state, .kept r, .ok (.replace r), ?_, ?_, halts_singleton_ok rfl,
      fun _ _ _ h ↦ .replaced h⟩
    · simp [leave, hdecision]
    · simp [leave, hdecision]
  · refine ⟨(v.after s n).state, .removed n, .ok .remove, ?_, ?_, halts_singleton_ok rfl,
      fun _ _ _ h ↦ .removed h⟩
    · simp [leave, hdecision, hnode]
    · simp [leave, hdecision, hnode]

section

variable (hv : v.Gentle) {depth : Nat}
include hv

theorem visit_refused {a : Except ε Visit} (hdecision : (v.before s n).decision = a)
    (ha : ∀ w, a = .ok w → w.returns = false) :
    RecountsFrom follow (visit v follow (depth + 1)) (visit v.recording follow (depth + 1))
      s n := by
  intro calls
  have hnode : (v.before s n).node = n := hv.before s n
  have hdisc {c : Prop} : Disciplined follow (n.at? follow) [⟨[], .before, n, a⟩] c :=
    disciplined_refused ha
  rcases a with reason | _ | _ | r | _
  · refine ⟨(v.before s n).state, .stopped n reason, _, ?_, ?_, hdisc, halts_singleton_error rfl,
      fun hnone ↦ absurd hnone (Option.some_ne_none reason)⟩
    · simp [visit, hdecision, hnode]
    · simp [visit, hdecision, hnode]
  · exact absurd (ha _ rfl) (by decide)
  · refine ⟨(v.before s n).state, .kept n, _, ?_, ?_, hdisc, halts_singleton_ok rfl,
      fun _ ↦ .skipped List.mem_cons_self⟩
    · simp [visit, hdecision, hnode]
    · simp [visit, hdecision, hnode]
  · exact absurd (ha _ rfl) (by simp [Visit.returns])
  · refine ⟨(v.before s n).state, .removed n, _, ?_, ?_, hdisc, halts_singleton_ok rfl,
      fun _ ↦ .dropped List.mem_cons_self⟩
    · simp [visit, hdecision, hnode]
    · simp [visit, hdecision, hnode]

theorem visit_replaced {r : Node} (hdecision : (v.before s n).decision = .ok (.replace r)) :
    RecountsFrom follow (visit v follow (depth + 1)) (visit v.recording follow (depth + 1))
      s n := by
  intro calls
  obtain ⟨s₁, fate, a, hleave, hleave', hhalts, hends⟩ := leave_recording hv (v.before s n).state
    (calls ++ [⟨.before, n, .ok (.replace r)⟩]) r
  have hbefore : Halts [(⟨[], .before, n, .ok (.replace r)⟩ : Entry ε)] none :=
    halts_singleton_ok rfl
  refine ⟨s₁, fate, [⟨[], .before, n, .ok (.replace r)⟩, ⟨[], .after, r, a⟩], ?_, ?_,
    disciplined_replaced, hbefore.append hhalts, fun hgo ↦ hends hgo _ _ (by simp)⟩
  · simp [visit, hdecision, hleave]
  · simp [visit, hdecision, hleave']

theorem visit_entered (hdecision : (v.before s n).decision = .ok .proceed)
    (hdocument : ∀ d, n.document? = some d →
      Recounts follow (visit v follow depth) (visit v.recording follow depth) d)
    (hcarried : ∀ m ∈ n.carried,
      Recounts follow (visit v follow depth) (visit v.recording follow depth) m) :
    RecountsFrom follow (visit v follow (depth + 1)) (visit v.recording follow (depth + 1))
      s n := by
  intro calls
  have hnode : (v.before s n).node = n := hv.before s n
  have hbefore : Halts [(⟨[], .before, n, .ok .proceed⟩ : Entry ε)] none := halts_singleton_ok rfl
  obtain ⟨s₁, m, stopped, log, h, h', hdisc, hhalts, hstands⟩ :=
    children_recounts hdocument hcarried (v.before s n).state
      (calls ++ [⟨.before, n, .ok .proceed⟩])
  rcases stopped with _ | reason
  · obtain ⟨s₂, fate, a, hleave, hleave', hhalts₂, hends⟩ :=
      leave_recording hv s₁ (calls ++ [⟨.before, n, .ok .proceed⟩] ++ log.map Entry.call) m
    have hwhole : Disciplined follow (n.at? follow)
        (⟨[], .before, n, .ok .proceed⟩ :: (log ++ [⟨[], .after, m, a⟩])) False :=
      (hdisc.imp (by simp)).entered (.inr ⟨id, m, a, rfl, hstands rfl⟩)
    refine ⟨s₂, fate, _, ?_, ?_, hwhole.imp False.elim, hbefore.append (hhalts.append hhalts₂),
      fun hgo ↦ hends hgo _ _ (by simp)⟩
    · simp [visit, hdecision, hnode, h, hleave]
    · simpa [visit, hdecision, hnode, h'] using hleave'
  · have hpart : Disciplined follow (n.at? follow)
        (⟨[], .before, n, .ok .proceed⟩ :: (log ++ [])) True :=
      (hdisc.imp fun _ ↦ trivial).entered (.inl ⟨trivial, rfl⟩)
    rw [List.append_nil] at hpart
    refine ⟨s₁, .stopped m reason, _, ?_, ?_, hpart.imp fun _ ↦ rfl, hbefore.append hhalts,
      fun hnone ↦ absurd hnone (Option.some_ne_none reason)⟩
    · simp [visit, hdecision, hnode, h]
    · simp [visit, hdecision, hnode, h']

/-- A walk that may go as deep as a node recounts what it calls for there. -/
theorem visit_recounts (hn : n.levels ≤ depth) :
    Recounts follow (visit v follow depth) (visit v.recording follow depth) n := by
  induction depth generalizing n with
  | zero => exact absurd hn (Nat.not_le_of_lt (Nat.zero_lt_of_lt n.carried_lt_levels))
  | succ depth ih =>
    intro s
    have hinside (m : Node) (hm : m.levels < n.levels) : m.levels ≤ depth := by omega
    rcases hdecision : (v.before s n).decision with reason | _ | _ | r | _
    · exact visit_refused hv hdecision nofun
    · exact visit_entered hv hdecision
        (fun d hd ↦ ih (hinside d (Node.levels_lt_of_document hd)))
        (fun m hm ↦ ih (hinside m (Node.levels_lt_of_mem_carried hm)))
    · exact visit_refused hv hdecision (by simp [Visit.returns])
    · exact visit_replaced hv hdecision
    · exact visit_refused hv hdecision (by simp [Visit.returns])

end

end Walk

/-- A walk calls a visitor that changes no node in place at most once about each node before and
after what is inside, in the order of the document, about all nodes that it has to, and no more
after a failure. It goes no deeper than the tree. -/
theorem Node.walk_disciplined {σ ε : Type} (v : Visitor σ ε) (hv : v.Gentle) (follow : Bool)
    (depth : Nat) (s : σ) (n : Node) (hdepth : n.levels ≤ depth) :
    ∃ t log, n.walk v follow depth s = some t ∧
      n.walk v.recording follow depth (s, []) =
        some ⟨(t.state, log.map Walk.Entry.call), t.left, t.stopped⟩ ∧
      (log.map Walk.Entry.time).Nodup ∧
      Walk.Disciplined follow (n.at? follow) log t.stopped.isSome ∧ Walk.Halts log t.stopped := by
  obtain ⟨s', fate, log, h, h', hdisc, hhalts, -⟩ :=
    Walk.visit_recounts hv hdepth s []
  refine ⟨⟨s', fate.root, fate.stopped?⟩, log, ?_, ?_, hdisc.nodup, hdisc, hhalts⟩
  · exact Walk.root_eq h
  · exact Walk.root_eq h'

/-- Rules that put no node in place and go on into it are followed by a visitor that changes no node
in place. -/
theorem WalkRule.gentle_visitor {rules : List WalkRule}
    (h : ∀ r ∈ rules, ∀ n, r.action ≠ .overwrite n) (only : Option Moment) :
    (visitor rules only).Gentle := by
  have hmeet (moment : Moment) (trace : List String) (n : Node) :
      (meet rules moment trace n).node = n := by
    simp only [meet]
    split
    case h_4 m haction =>
      obtain ⟨r, hfind, hr⟩ := Option.map_eq_some_iff.mp haction
      exact absurd hr (h r (List.mem_of_find?_eq_some hfind) m)
    all_goals rfl
  constructor
  · intro s n
    simp only [visitor]
    split
    · rfl
    · exact hmeet .before s n
  · intro s n
    simp only [visitor]
    split
    · rfl
    · exact hmeet .after s n

/-- A document with a tag, an include with its document and its body, and text around them. -/
def mixedTree : Node :=
  .group ⟨[.tag ⟨"p", false, ⟨none, 1⟩⟩ ⟨[.text "a" ⟨none, 1⟩, .text "b" ⟨none, 1⟩], ⟨none, 1⟩⟩,
    .includes (.unloaded "part.tpl" none) (some (.group ⟨[.text "c" ⟨none, 1⟩], ⟨none, 1⟩⟩))
      (some ⟨[.text "d" ⟨none, 2⟩], ⟨none, 2⟩⟩) ⟨none, 2⟩,
    .text "e" ⟨none, 3⟩, .text "f" ⟨none, 3⟩, .text "g" ⟨none, 3⟩], ⟨none, 1⟩⟩

/-- One rule for each decision, and one that stops the walk. -/
def mixedRules : List WalkRule :=
  [⟨.before, none, some "a", .replace (.group ⟨[.text "b" ⟨none, 1⟩], ⟨none, 1⟩⟩)⟩,
    ⟨.before, none, some "b", .remove⟩, ⟨.after, none, some "p", .remove⟩,
    ⟨.before, none, some "e", .skip⟩, ⟨.after, none, some "f", .stop⟩]

theorem Node.walk_disciplined_mixedTree :
    (WalkRule.visitor mixedRules none).Gentle ∧ mixedTree.levels ≤ 4 ∧
    (mixedTree.walk (WalkRule.visitor mixedRules none) true 4 []).map (fun t ↦ t.state) =
      some ["+Block:", "+Tag:p", "+Text:a", "-Block:", "+Text:b", "-Tag:p", "+Include:part.tpl",
        "+Block:", "+Text:c", "-Text:c", "-Block:", "+Text:d", "-Text:d", "-Include:part.tpl",
        "+Text:e", "+Text:f", "-Text:f"] ∧
    ∃ t log, mixedTree.walk (WalkRule.visitor mixedRules none) true 4 [] = some t ∧
      mixedTree.walk (WalkRule.visitor mixedRules none).recording true 4 ([], []) =
        some ⟨(t.state, log.map Walk.Entry.call), t.left, t.stopped⟩ ∧
      (log.map Walk.Entry.time).Nodup ∧
      Walk.Disciplined true (mixedTree.at? true) log t.stopped.isSome ∧
      Walk.Halts log t.stopped := by
  have hgentle : (WalkRule.visitor mixedRules none).Gentle :=
    WalkRule.gentle_visitor (by simp [mixedRules]) none
  have hlevels : mixedTree.levels ≤ 4 := by decide
  exact ⟨hgentle, hlevels, by decide +kernel,
    walk_disciplined (WalkRule.visitor mixedRules none) hgentle true 4 [] mixedTree hlevels⟩

end Templating
