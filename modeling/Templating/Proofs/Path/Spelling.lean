import Mathlib.Data.List.DropRight
import Templating.Loading.Resolution
import Templating.Proofs.Path

/-!
# Spellings of paths

A leading `.` of a path takes no step. Without it, the steps of a joined path are those of its
parts (`Path.stepsOf_join`), and those of a parent are all but the last (`Path.stepsOf_parent`). So
a reference leads to the same file, however the file that holds it is spelled
(`resolveReference_congr`).
-/

namespace Templating

namespace Path

/-- The steps of a text, its leading slash included. -/
def stepsOf (cs : List Char) : List Component :=
  (if cs.head? = some '/' then [.root] else []) ++ (segments cs).filterMap Component.ofSegment

theorem segments_ne_nil (cs : List Char) : segments cs ≠ [] := by
  cases cs with
  | nil => simp [segments]
  | cons c cs =>
    rw [segments]
    split
    · simp
    · split <;> simp

theorem segments_append_slash_append (cs ds : List Char) :
    segments (cs ++ '/' :: ds) = segments cs ++ segments ds := by
  induction cs with
  | nil => simp [segments]
  | cons c cs ih =>
    rw [List.cons_append, segments, segments, ih]
    split
    · rfl
    · cases h : segments cs with
      | nil => exact absurd h (segments_ne_nil cs)
      | cons s ss => rfl

/-- The steps of segments. -/
abbrev named (ss : List (List Char)) : List Component := ss.filterMap Component.ofSegment

theorem filter_named (ss : List (List Char)) : (named ss).filter (· ≠ .current) = named ss := by
  refine List.filter_eq_self.mpr fun c hc ↦ ?_
  obtain ⟨s, -, hs⟩ := List.mem_filterMap.mp hc
  unfold Component.ofSegment at hs
  split at hs
  · cases hs
  · split at hs <;>
    · cases hs
      rfl

theorem filter_componentsOf (cs : List Char) :
    (componentsOf cs).filter (· ≠ .current) = stepsOf cs := by
  unfold componentsOf stepsOf
  split
  · next rest =>
    rw [segments, if_pos rfl, List.filter_cons_of_pos (by simp)]
    exact congrArg (_ :: ·) (filter_named _)
  · next hroot =>
    have hhead : cs.head? ≠ some '/' := by
      cases cs with
      | nil => simp
      | cons c cs =>
        rintro ⟨⟩
        exact hroot cs rfl
    rw [if_neg hhead, List.nil_append]
    split
    · next rest hrest =>
      rw [hrest, List.filter_cons_of_neg (by simp)]
      exact filter_named _
    · exact filter_named _

/-- Only steps count for the evaluation. -/
theorem evaluate_components (p : Path) :
    evaluate p.components = evaluate (stepsOf p.text.toList) := by
  rw [components, ← filter_componentsOf, evaluate, evaluate, List.foldl_filter]
  congr 2
  funext stack c
  cases c <;> rfl

theorem stepsOf_eq_of_same {p q : Path} (h : p.same q) :
    stepsOf p.text.toList = stepsOf q.text.toList := by
  rw [← filter_componentsOf, ← filter_componentsOf]
  exact congrArg _ (same_iff.mp h)

theorem stepsOf_of_head {cs : List Char} (h : cs.head? ≠ some '/') :
    stepsOf cs = named (segments cs) := by
  rw [stepsOf, if_neg h, List.nil_append]

theorem stepsOf_append_slash (cs ds : List Char) :
    stepsOf (cs ++ '/' :: ds) = stepsOf (cs ++ ['/']) ++ named (segments ds) := by
  have hhead : (cs ++ '/' :: ds).head? = (cs ++ ['/']).head? := by cases cs <;> rfl
  rw [stepsOf, stepsOf, hhead, segments_append_slash_append, segments_append_slash_append,
    List.filterMap_append, List.filterMap_append, List.append_assoc, List.append_assoc]
  rfl

theorem stepsOf_append_slash_nil {cs : List Char} (h : cs ≠ []) :
    stepsOf (cs ++ ['/']) = stepsOf cs := by
  rw [stepsOf, stepsOf, List.head?_append_of_ne_nil _ h, segments_append_slash_append,
    List.filterMap_append]
  exact congrArg _ (List.append_nil _)

theorem stepsOf_join {p q : Path} (hq : q.text.toList.head? ≠ some '/') :
    stepsOf (p.join q).text.toList = stepsOf p.text.toList ++ stepsOf q.text.toList := by
  have habsolute : q.isAbsolute = false := by
    unfold isAbsolute
    split
    · next h => simp [h] at hq
    · rfl
  rw [join, habsolute, if_neg Bool.false_ne_true]
  split
  · next hlast =>
    rw [String.toList_append]
    rcases hlast with hlast | hlast
    · rw [List.getLast?_eq_none_iff.mp hlast]
      rfl
    · obtain ⟨cs, hcs⟩ := List.getLast?_eq_some_iff.mp hlast
      rw [hcs, List.append_assoc, List.singleton_append, stepsOf_append_slash, stepsOf_of_head hq]
  · next hlast =>
    rw [not_or, List.getLast?_eq_none_iff] at hlast
    rw [String.toList_append, String.toList_append, List.append_assoc]
    change stepsOf (_ ++ '/' :: q.text.toList) = _
    rw [stepsOf_append_slash, stepsOf_append_slash_nil hlast.1, stepsOf_of_head hq]

/-! ### Parents -/

theorem trimSegments_eq (ss : List (List Char)) :
    trimSegments ss = ss.rdropWhile fun s ↦ (Component.ofSegment s).isNone := rfl

theorem named_trimSegments (ss : List (List Char)) : named (trimSegments ss) = named ss := by
  induction ss using List.reverseRecOn with
  | nil => rfl
  | append_singleton ss s ih =>
    rw [trimSegments_eq, List.rdropWhile_concat]
    split
    · next hs =>
      rw [← trimSegments_eq, ih, named, named, List.filterMap_append,
        List.filterMap_cons_none (by simpa using hs), List.filterMap_nil, List.append_nil]
    · rfl

theorem named_eq_nil_iff {ss : List (List Char)} : named ss = [] ↔ trimSegments ss = [] := by
  rw [trimSegments_eq, List.rdropWhile_eq_nil_iff, List.filterMap_eq_nil_iff]
  simp

/-- Without the last segment that takes a step, the last step is missing. -/
theorem named_dropLast (ss : List (List Char)) :
    named (trimSegments ss).dropLast = (named ss).dropLast := by
  rw [← named_trimSegments ss]
  rcases List.eq_nil_or_concat (trimSegments ss) with h | ⟨init, s, h⟩
  · rw [h]
    rfl
  · have hlast := List.rdropWhile_last_not (fun s ↦ (Component.ofSegment s).isNone) ss
      (by simp [← trimSegments_eq, h])
    simp only [← trimSegments_eq, h, List.concat_eq_append, List.getLast_append_singleton] at hlast
    obtain ⟨c, hc⟩ := Option.ne_none_iff_exists'.mp (by simpa using hlast)
    rw [h, List.concat_eq_append, List.dropLast_concat, named, named, List.filterMap_append,
      List.filterMap_cons_some hc, List.filterMap_nil, List.dropLast_concat]

theorem named_segments_joinSegments {ss : List (List Char)} (h : ∀ s ∈ ss, Slashless s) :
    named (segments (joinSegments ss)) = named ss := by
  by_cases hne : ss = []
  · rw [hne]
    rfl
  · exact congrArg named (segments_intercalate hne h)

/-- What is left of segments without the last step. -/
def parentSegments (ss : List (List Char)) : List (List Char) :=
  trimSegments (trimSegments ss).dropLast

theorem parentSegments_begin (ss : List (List Char)) :
    parentSegments ss <+: ss :=
  ((List.rdropWhile_prefix _ _).trans (List.dropLast_prefix _)).trans (List.rdropWhile_prefix _ _)

theorem named_parentSegments (ss : List (List Char)) :
    named (parentSegments ss) = (named ss).dropLast := by
  rw [parentSegments, named_trimSegments, named_dropLast]

/-- The root or the leading `.` of a text, and the rest. -/
def splitLead (cs : List Char) : List Char × List Char :=
  match cs with
  | '/' :: rest => (['/'], rest)
  | ['.'] => (['.'], [])
  | '.' :: '/' :: rest => (['.'], '/' :: rest)
  | _ => ([], cs)

theorem splitLead_cases (cs : List Char) :
    (∃ body, splitLead cs = (['/'], body) ∧ cs = '/' :: body) ∨
      (∃ body, splitLead cs = (['.'], body) ∧ cs = '.' :: body ∧
        (body.head? = none ∨ body.head? = some '/')) ∨
      (splitLead cs = ([], cs) ∧ cs.head? ≠ some '/') := by
  unfold splitLead
  split
  · exact .inl ⟨_, rfl, rfl⟩
  · exact .inr (.inl ⟨_, rfl, rfl, .inl rfl⟩)
  · exact .inr (.inl ⟨_, rfl, rfl, .inr rfl⟩)
  · next hroot _ _ =>
    refine .inr (.inr ⟨rfl, ?_⟩)
    cases cs with
    | nil => simp
    | cons c cs =>
      rintro ⟨⟩
      exact hroot cs rfl

theorem parent?_eq (p : Path) : p.parent? =
    match trimSegments (segments (splitLead p.text.toList).2) with
    | [] => if (splitLead p.text.toList).1 = ['.'] then some ⟨""⟩ else none
    | ss => some ⟨String.ofList
        ((splitLead p.text.toList).1 ++ joinSegments (trimSegments ss.dropLast))⟩ := rfl

theorem parent_text {p : Path} {lead body : List Char}
    (h : splitLead p.text.toList = (lead, body)) :
    (p.parent?.getD ⟨""⟩).text.toList =
      if trimSegments (segments body) = [] then []
      else lead ++ joinSegments (parentSegments (segments body)) := by
  rw [parent?_eq, h, parentSegments]
  dsimp only
  cases trimSegments (segments body) with
  | nil => by_cases hlead : lead = ['.'] <;> simp [hlead]
  | cons s ss => simp

theorem joinSegments_cons_cons (s t : List Char) (ss : List (List Char)) :
    joinSegments (s :: t :: ss) = s ++ '/' :: joinSegments (t :: ss) := by
  simp [joinSegments]

/-- The first segments of a text are the beginning of it. -/
theorem joinSegments_begin {ss : List (List Char)} {cs : List Char} (h : ss <+: segments cs) :
    joinSegments ss <+: cs := by
  induction cs generalizing ss with
  | nil =>
    rw [segments, List.prefix_cons_iff] at h
    rcases h with rfl | ⟨ss, rfl, hss⟩
    · exact List.nil_prefix
    · rw [List.prefix_nil.mp hss]
      exact List.nil_prefix
  | cons c cs ih =>
    rw [segments] at h
    split at h
    · next hc =>
      subst hc
      rw [List.prefix_cons_iff] at h
      rcases h with rfl | ⟨ss, rfl, hss⟩
      · exact List.nil_prefix
      · cases ss with
        | nil => exact List.nil_prefix
        | cons s ss =>
          rw [joinSegments_cons_cons, List.nil_append, List.cons_prefix_cons]
          exact ⟨rfl, ih hss⟩
    · obtain ⟨t, ts, ht⟩ := List.exists_cons_of_ne_nil (segments_ne_nil cs)
      rw [ht] at h ih
      rw [List.prefix_cons_iff] at h
      rcases h with rfl | ⟨ss, rfl, hss⟩
      · exact List.nil_prefix
      · have hcons : joinSegments ((c :: t) :: ss) = c :: joinSegments (t :: ss) := by
          cases ss <;> simp [joinSegments]
        rw [hcons, List.cons_prefix_cons]
        exact ⟨rfl, ih (List.cons_prefix_cons.mpr ⟨rfl, hss⟩)⟩

theorem named_segments_parent (cs : List Char) :
    named (segments (joinSegments (parentSegments (segments cs)))) =
      (named (segments cs)).dropLast := by
  rw [named_segments_joinSegments fun s hs ↦
    slashless_of_mem_segments ((parentSegments_begin _).subset hs), named_parentSegments]

theorem stepsOf_slash (cs : List Char) : stepsOf ('/' :: cs) = .root :: named (segments cs) := rfl

theorem stepsOf_dot {cs : List Char} (h : cs.head? = none ∨ cs.head? = some '/') :
    stepsOf ('.' :: cs) = named (segments cs) := by
  rw [stepsOf_of_head (by simp)]
  cases cs with
  | nil => rfl
  | cons c cs =>
    obtain rfl : c = '/' := by simpa using h
    rfl

/-- What is left of a text in front of its last step begins like the text, or is empty. -/
theorem head?_joinSegments_parent (cs : List Char) :
    (joinSegments (parentSegments (segments cs))).head? = none ∨
      (joinSegments (parentSegments (segments cs))).head? = cs.head? := by
  obtain ⟨ds, hds⟩ := joinSegments_begin (parentSegments_begin (segments cs))
  cases h : joinSegments (parentSegments (segments cs)) with
  | nil => exact .inl rfl
  | cons c rest =>
    rw [h] at hds
    exact .inr (hds ▸ rfl)

/-- A path and its parent take the same steps, up to the last. -/
theorem stepsOf_parent (p : Path) :
    stepsOf (p.parent?.getD ⟨""⟩).text.toList = (stepsOf p.text.toList).dropLast := by
  rcases splitLead_cases p.text.toList with
    ⟨body, hlead, htext⟩ | ⟨body, hlead, htext, hbody⟩ | ⟨hlead, hhead⟩
  · rw [parent_text hlead, htext, stepsOf_slash]
    split
    · next h =>
      rw [named_eq_nil_iff.mpr h]
      rfl
    · next h =>
      rw [List.singleton_append, stepsOf_slash, named_segments_parent,
        List.dropLast_cons_of_ne_nil (mt named_eq_nil_iff.mp h)]
  · rw [parent_text hlead, htext, stepsOf_dot hbody]
    split
    · next h =>
      rw [named_eq_nil_iff.mpr h]
      rfl
    · rw [List.singleton_append, stepsOf_dot, named_segments_parent]
      exact (head?_joinSegments_parent body).elim .inl fun h ↦ h ▸ hbody
  · rw [parent_text hlead, stepsOf_of_head hhead]
    split
    · next h =>
      rw [named_eq_nil_iff.mpr h]
      rfl
    · rw [List.nil_append, stepsOf_of_head, named_segments_parent]
      rcases head?_joinSegments_parent p.text.toList with h | h
      · simp [h]
      · rwa [h]

end Path

/-- A reference leads to the same file from files whose directories lead to the same places. -/
theorem resolveReference_congr_parent {p q : Path}
    (h : ∀ cs, Path.evaluate (Path.stepsOf (p.parent?.getD ⟨""⟩).text.toList ++ cs) =
      Path.evaluate (Path.stepsOf (q.parent?.getD ⟨""⟩).text.toList ++ cs))
    (base : Option Path) (written : String) :
    resolveReference base written (some p) = resolveReference base written (some q) := by
  unfold resolveReference
  dsimp only
  split
  · rfl
  · next hroot =>
    have hhead : (Text.trim written).toList.head? ≠ some '/' := by
      cases hcs : (Text.trim written).toList with
      | nil => simp
      | cons c cs =>
        rintro ⟨⟩
        exact hroot cs hcs
    have hjoin : ∀ f : Path, ((f.parent?.getD ⟨""⟩).join ⟨Text.trim written⟩).normalize =
        Path.ofComponents (Path.evaluate (Path.stepsOf (f.parent?.getD ⟨""⟩).text.toList ++
          Path.stepsOf (Text.trim written).toList)) := by
      intro f
      rw [Path.normalize, Path.evaluate_components,
        Path.stepsOf_join (q := ⟨Text.trim written⟩) hhead]
    rw [hjoin, hjoin, h]

/-- A reference leads to the same file from all spellings of the file that holds it. -/
theorem resolveReference_congr {p q : Path} (h : p.same q) (base : Option Path) (written : String) :
    resolveReference base written (some p) = resolveReference base written (some q) := by
  refine resolveReference_congr_parent (fun cs ↦ ?_) base written
  rw [Path.stepsOf_parent, Path.stepsOf_parent, Path.stepsOf_eq_of_same h]

end Templating
