import Templating.Path

/-!
# Normalised paths

Lexical evaluation leaves at most one root, at the front, and behind it steps that can be written
between slashes. Such components are read back from the path that is made of them
(`Path.components_ofComponents`), so normalised paths with the same components are equal
(`Path.normalize_eq_of_same`).
-/

namespace Templating.Path

/-- The two paths are different. -/
def Apart (p q : Path) : Prop := p.same q = false

theorem same_iff {p q : Path} : p.same q ↔ p.components = q.components := by
  simp [same]

theorem apart_iff {p q : Path} : p.Apart q ↔ p.components ≠ q.components := by
  simp [Apart, same]

/-! ### Segments -/

/-- No slash is in the text. -/
def Slashless (s : List Char) : Prop := '/' ∉ s

theorem slashless_of_mem_segments {cs s : List Char} (h : s ∈ segments cs) : Slashless s := by
  induction cs generalizing s with
  | nil => simp_all [segments, Slashless]
  | cons c cs ih =>
    unfold segments at h
    by_cases hc : c = '/'
    · rw [if_pos hc, List.mem_cons] at h
      rcases h with rfl | h
      · simp [Slashless]
      · exact ih h
    · rw [if_neg hc] at h
      cases hs : segments cs with
      | nil =>
        rw [hs] at h
        obtain rfl := List.mem_singleton.mp h
        simpa [Slashless] using Ne.symm hc
      | cons t rest =>
        rw [hs] at h
        rcases List.mem_cons.mp h with rfl | h
        · have ht : Slashless t := ih (hs ▸ List.mem_cons_self)
          simpa [Slashless] using ⟨Ne.symm hc, ht⟩
        · exact ih (hs ▸ List.mem_cons_of_mem _ h)

theorem segments_of_slashless {s : List Char} (h : Slashless s) : segments s = [s] := by
  induction s with
  | nil => rfl
  | cons c cs ih =>
    simp only [Slashless, List.mem_cons, not_or] at h
    rw [segments, if_neg (Ne.symm h.1), ih h.2]

theorem segments_append_slash {s : List Char} (h : Slashless s) (cs : List Char) :
    segments (s ++ '/' :: cs) = s :: segments cs := by
  induction s with
  | nil => simp [segments]
  | cons c s ih =>
    simp only [Slashless, List.mem_cons, not_or] at h
    rw [List.cons_append, segments, if_neg (Ne.symm h.1), ih h.2]

/-- Segments are read back from the text they are joined to. -/
theorem segments_intercalate {ss : List (List Char)} (hne : ss ≠ [])
    (h : ∀ s ∈ ss, Slashless s) : segments (List.intercalate ['/'] ss) = ss := by
  induction ss with
  | nil => exact absurd rfl hne
  | cons s ss ih =>
    rw [List.forall_mem_cons] at h
    cases ss with
    | nil => simpa using segments_of_slashless h.1
    | cons t ss =>
      rw [List.intercalate_cons_cons, List.append_assoc, List.singleton_append,
        segments_append_slash h.1, ih (by simp) h.2]

/-! ### Steps -/

/-- A component that stands for a segment of its own. -/
def Component.IsStep : Component → Prop
  | .up => True
  | .name s => Slashless s.toList ∧ s.toList ≠ [] ∧ s.toList ≠ ['.'] ∧ s.toList ≠ ['.', '.']
  | _ => False

/-- All components are steps. -/
def Steps (cs : List Component) : Prop := ∀ c ∈ cs, c.IsStep

theorem Component.isStep_ofSegment {s : List Char} (hs : Slashless s) {c : Component}
    (h : ofSegment s = some c) : c.IsStep := by
  unfold ofSegment at h
  split at h
  · cases h
  · next hempty =>
    split at h
    · cases h
      trivial
    · next hup =>
      cases h
      rw [not_or] at hempty
      simpa [IsStep] using ⟨hs, hempty.1, hempty.2, hup⟩

theorem steps_filterMap_ofSegment {ss : List (List Char)} (h : ∀ s ∈ ss, Slashless s) :
    Steps (ss.filterMap Component.ofSegment) := by
  intro c hc
  obtain ⟨s, hs, hc⟩ := List.mem_filterMap.mp hc
  exact Component.isStep_ofSegment (h s hs) hc

/-- A step is read back from its text. -/
theorem Component.IsStep.ofSegment_text {c : Component} (h : c.IsStep) :
    Component.ofSegment c.text.toList = some c := by
  cases c with
  | root => cases h
  | current => cases h
  | up => rfl
  | name s =>
    obtain ⟨-, hempty, hcurrent, hup⟩ := h
    simp [ofSegment, text, hempty, hcurrent, hup]

theorem Component.IsStep.slashless_text {c : Component} (h : c.IsStep) :
    Slashless c.text.toList := by
  cases c with
  | root => cases h
  | current => cases h
  | up => simp [text, Slashless]
  | name s => exact h.1

theorem Component.IsStep.text_ne_nil {c : Component} (h : c.IsStep) : c.text.toList ≠ [] := by
  cases c with
  | root => cases h
  | current => cases h
  | up => simp [text]
  | name s => exact h.2.1

theorem Component.IsStep.text_ne_current {c : Component} (h : c.IsStep) :
    c.text.toList ≠ ['.'] := by
  cases c with
  | root => cases h
  | current => cases h
  | up => simp [text]
  | name s => exact h.2.2.1

theorem filterMap_ofSegment_text {cs : List Component} (h : Steps cs) :
    (cs.map fun c ↦ c.text.toList).filterMap Component.ofSegment = cs := by
  induction cs with
  | nil => rfl
  | cons c cs ih =>
    rw [Steps, List.forall_mem_cons] at h
    rw [List.map_cons, List.filterMap_cons_some h.1.ofSegment_text, ih h.2]

/-! ### Evaluation -/

/-- Steps, perhaps behind a root. -/
def Normal (cs : List Component) : Prop := ∃ steps, Steps steps ∧ (cs = steps ∨ cs = .root :: steps)

/-- The components of a path are steps, perhaps behind a root or a `.`. -/
theorem exists_steps_components (p : Path) : ∃ steps, Steps steps ∧
    (p.components = steps ∨ p.components = .root :: steps ∨ p.components = .current :: steps) := by
  unfold components componentsOf
  split
  · next rest _ =>
    exact ⟨_, steps_filterMap_ofSegment fun s ↦ slashless_of_mem_segments, .inr (.inl rfl)⟩
  · split
    · next rest hs =>
      refine ⟨_, steps_filterMap_ofSegment fun s hm ↦ ?_, .inr (.inr rfl)⟩
      have hmem : s ∈ segments p.text.toList := hs ▸ List.mem_cons_of_mem _ hm
      exact slashless_of_mem_segments hmem
    · exact ⟨_, steps_filterMap_ofSegment fun s ↦ slashless_of_mem_segments, .inl rfl⟩

/-- Evaluating a step over steps and a root leaves steps and the root. -/
theorem exists_pushComponent_eq {base stack : List Component} {c : Component}
    (hb : base = [] ∨ base = [.root]) (hs : Steps stack) (hc : c.IsStep) :
    ∃ stack', Steps stack' ∧ pushComponent (stack ++ base) c = stack' ++ base := by
  cases c with
  | root => cases hc
  | current => cases hc
  | name s => exact ⟨.name s :: stack, by simpa [Steps] using ⟨hc, hs⟩, rfl⟩
  | up =>
    cases stack with
    | nil =>
      rcases hb with rfl | rfl
      · exact ⟨[.up], by simp [Steps, Component.IsStep], rfl⟩
      · exact ⟨[], by simp [Steps], rfl⟩
    | cons d stack =>
      rw [Steps, List.forall_mem_cons] at hs
      cases d with
      | root => cases hs.1
      | current => cases hs.1
      | name s => exact ⟨stack, hs.2, rfl⟩
      | up => exact ⟨.up :: .up :: stack, by simpa [Steps, Component.IsStep] using hs.2, rfl⟩

theorem exists_foldl_pushComponent_eq {base : List Component} (hb : base = [] ∨ base = [.root])
    {cs : List Component} (hcs : Steps cs) {stack : List Component} (hs : Steps stack) :
    ∃ stack', Steps stack' ∧ cs.foldl pushComponent (stack ++ base) = stack' ++ base := by
  induction cs generalizing stack with
  | nil => exact ⟨stack, hs, rfl⟩
  | cons c cs ih =>
    rw [Steps, List.forall_mem_cons] at hcs
    obtain ⟨stack', hs', he⟩ := exists_pushComponent_eq hb hs hcs.1
    rw [List.foldl_cons, he]
    exact ih hcs.2 hs'

/-- The evaluated components of a path are in normal form. -/
theorem normal_evaluate_components (p : Path) : Normal (evaluate p.components) := by
  have heval : ∀ base, base = [] ∨ base = [Component.root] → ∀ steps, Steps steps →
      Normal (steps.foldl pushComponent base).reverse := by
    intro base hb steps hsteps
    have hnil : Steps [] := by simp [Steps]
    obtain ⟨stack, hs, he⟩ := exists_foldl_pushComponent_eq hb hsteps hnil
    rw [List.nil_append] at he
    refine ⟨stack.reverse, by simpa [Steps] using hs, ?_⟩
    rw [he, List.reverse_append]
    rcases hb with rfl | rfl
    · exact .inl rfl
    · exact .inr rfl
  obtain ⟨steps, hsteps, he | he | he⟩ := exists_steps_components p
  · rw [he]
    exact heval [] (.inl rfl) steps hsteps
  · rw [he]
    exact heval [.root] (.inr rfl) steps hsteps
  · rw [he]
    exact heval [] (.inl rfl) steps hsteps

/-! ### The way back -/

theorem componentsOf_slash (cs : List Char) :
    componentsOf ('/' :: cs) = .root :: (segments cs).filterMap Component.ofSegment := rfl

theorem segments_intercalate_text {cs : List Component} (hne : cs ≠ []) (h : Steps cs) :
    segments ("/".intercalate (cs.map Component.text)).toList = cs.map fun c ↦ c.text.toList := by
  rw [String.toList_intercalate, List.map_map]
  exact segments_intercalate (by simpa using hne)
    (by simpa using fun c hc ↦ (h c hc).slashless_text)

/-- The steps behind the root, or of a relative path. -/
theorem filterMap_segments_intercalate {cs : List Component} (h : Steps cs) :
    (segments ("/".intercalate (cs.map Component.text)).toList).filterMap Component.ofSegment =
      cs := by
  by_cases hne : cs = []
  · subst hne
    rfl
  · rw [segments_intercalate_text hne h, filterMap_ofSegment_text h]

theorem ofComponents_steps {cs : List Component} (h : Steps cs) :
    ofComponents cs = ⟨"/".intercalate (cs.map Component.text)⟩ := by
  match cs, h with
  | [], _ => rfl
  | .root :: _, h => cases h .root List.mem_cons_self
  | .current :: _, _ | .up :: _, _ | .name _ :: _, _ => rfl

/-- A text is read as a relative path if its first segment is neither empty nor a `.`. -/
theorem componentsOf_relative {cs s : List Char} {ss : List (List Char)}
    (hs : segments cs = s :: ss) (hempty : s ≠ []) (hcurrent : s ≠ ['.']) :
    componentsOf cs = (segments cs).filterMap Component.ofSegment := by
  unfold componentsOf
  split
  · next rest =>
    rw [segments, if_pos rfl] at hs
    exact absurd (List.cons.inj hs).1.symm hempty
  · split
    · next hdot =>
      rw [hs] at hdot
      exact absurd (List.cons.inj hdot).1 hcurrent
    · rfl

/-- Components in normal form are read back from the path that is made of them. -/
theorem components_ofComponents {cs : List Component} (h : Normal cs) :
    (ofComponents cs).components = cs := by
  obtain ⟨steps, hsteps, rfl | rfl⟩ := h
  · rw [components, ofComponents_steps hsteps]
    cases cs with
    | nil => rfl
    | cons c cs =>
      have hc : c.IsStep := hsteps c List.mem_cons_self
      rw [componentsOf_relative (segments_intercalate_text (by simp) hsteps) hc.text_ne_nil
        hc.text_ne_current, filterMap_segments_intercalate hsteps]
  · have ht : (ofComponents (.root :: steps)).text.toList =
        '/' :: ("/".intercalate (steps.map Component.text)).toList := by
      simp [ofComponents]
    rw [components, ht, componentsOf_slash, filterMap_segments_intercalate hsteps]

/-- A normalised path has the evaluated components. -/
theorem components_normalize (p : Path) : p.normalize.components = evaluate p.components :=
  components_ofComponents (normal_evaluate_components p)

/-- Normalised paths have one spelling. -/
theorem normalize_eq_of_same {p q : Path} (h : p.normalize.same q.normalize) :
    p.normalize = q.normalize := by
  rw [same_iff, components_normalize, components_normalize] at h
  rw [normalize, h, normalize]

end Templating.Path
