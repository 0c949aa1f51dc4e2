import Templating.Proofs.Path.Extension

/-!
# Lexical evaluation

A normalised path is absolute if the path is, and is made of names alone, behind the root or behind
`..` steps of a relative path (`Path.exists_normalize_eq`). Evaluating a part of a path beforehand
does not change where the path leads (`Path.evaluate_append_left`, `Path.evaluate_append_right`), so
normalisation goes through joining (`Path.normalize_lexical`).
-/

namespace Templating

namespace Path

/-! ### Evaluating twice -/

theorem isAbsolute_iff_root_mem {p : Path} : p.isAbsolute ↔ .root ∈ p.components := by
  constructor
  · intro h
    rw [(components_of_isAbsolute h).1]
    exact List.mem_cons_self
  · exact fun h ↦ Classical.byContradiction fun hp ↦ root_notMem_components hp h

theorem evaluate_of_names {names : List Component} (h : ∀ c ∈ names, Component.isName c) :
    evaluate names = names := by
  rw [evaluate, foldl_pushComponent_of_names h, List.append_nil, List.reverse_reverse]

theorem root_notMem_of_names {names : List Component} (h : ∀ c ∈ names, Component.isName c) :
    .root ∉ names :=
  fun hroot ↦ Bool.false_ne_true (h _ hroot)

theorem evaluate_root_cons_of_names {names : List Component}
    (h : ∀ c ∈ names, Component.isName c) : evaluate (.root :: names) = .root :: names := by
  have hclimb : climb names = 0 := climb_eq (k := 0) h (evaluate_of_names h)
  rw [evaluate_root_cons (root_notMem_of_names h), evaluate_of_names h, hclimb, List.drop_zero]

/-- Components as they are evaluated: names behind the root, or behind steps upwards. -/
theorem exists_evaluate_components (p : Path) :
    ∃ k names, (∀ c ∈ names, Component.isName c) ∧
      evaluate p.components =
        (if p.isAbsolute then [.root] else List.replicate k .up) ++ names := by
  by_cases hp : p.isAbsolute
  · obtain ⟨hroot, htail⟩ := components_of_isAbsolute hp
    refine ⟨0, _, fun c ↦ isName_of_mem_drop_climb htail, ?_⟩
    rw [if_pos hp]
    exact (congrArg evaluate hroot).trans (evaluate_root_cons htail)
  · obtain ⟨names, hnames, he⟩ := exists_evaluate_eq (root_notMem_components hp)
    exact ⟨_, names, hnames, by rw [he, if_neg hp]⟩

theorem evaluate_evaluate (p : Path) :
    evaluate (evaluate p.components) = evaluate p.components := by
  by_cases hp : p.isAbsolute
  · obtain ⟨_, names, hnames, he⟩ := exists_evaluate_components p
    rw [if_pos hp, List.singleton_append] at he
    rw [he, evaluate_root_cons_of_names hnames]
  · rw [evaluate, foldl_evaluate (root_notMem_components hp), evaluate]

theorem evaluate_append_left (p : Path) (cs : List Component) :
    evaluate (evaluate p.components ++ cs) = evaluate (p.components ++ cs) :=
  evaluate_append_congr (evaluate_evaluate p) cs

theorem evaluate_append_right (as : List Component) {cs : List Component} (h : .root ∉ cs) :
    evaluate (as ++ evaluate cs) = evaluate (as ++ cs) := by
  rw [evaluate_append, foldl_evaluate h, ← evaluate_append]

/-! ### Normalised paths -/

theorem isAbsolute_normalize (p : Path) : p.normalize.isAbsolute = p.isAbsolute := by
  rw [Bool.eq_iff_iff, isAbsolute_iff_root_mem, components_normalize]
  obtain ⟨k, names, hnames, he⟩ := exists_evaluate_components p
  rw [he]
  have hnot := root_notMem_of_names hnames
  by_cases hp : p.isAbsolute <;> simp [hp, hnot, List.mem_replicate]

/-- The components of a normalised path are its steps. -/
theorem stepsOf_normalize (p : Path) :
    stepsOf p.normalize.text.toList = evaluate p.components := by
  have hsteps : stepsOf p.normalize.text.toList = p.normalize.components.filter (· ≠ .current) :=
    (filter_componentsOf _).symm
  obtain ⟨k, names, hnames, he⟩ := exists_evaluate_components p
  rw [hsteps, components_normalize, List.filter_eq_self]
  intro c hc
  rw [he, List.mem_append] at hc
  rcases hc with hc | hc
  · split at hc
    · rw [List.mem_singleton.mp hc]
      rfl
    · rw [List.eq_of_mem_replicate hc]
      rfl
  · have hname := hnames c hc
    cases c with
    | name s => rfl
    | _ => cases hname

theorem normalize_normalize (p : Path) : p.normalize.normalize = p.normalize := by
  rw [normalize, components_normalize, evaluate_evaluate, ← normalize]

theorem normalize_join (p : Path) {q : Path} (hq : ¬ q.isAbsolute) :
    (p.normalize.join q.normalize).normalize = (p.join q).normalize := by
  have hq' : ¬ q.normalize.isAbsolute := by rwa [isAbsolute_normalize]
  have hroot : .root ∉ q.components := root_notMem_components hq
  have hright : evaluate (p.components ++ q.components) =
      evaluate (p.components ++ stepsOf q.text.toList) := by
    rw [← evaluate_append_right _ hroot, evaluate_components, evaluate_append_right]
    rw [stepsOf, if_neg (mt isAbsolute_iff.mpr hq), List.nil_append]
    exact root_notMem_named _
  rw [normalize, evaluate_components_join hq', components_normalize, stepsOf_normalize,
    evaluate_append_left, evaluate_append_right _ hroot, hright, ← evaluate_components_join hq,
    ← normalize]

/-! ### The text of a normalised path -/

theorem segments_ofComponents {cs : List Component} (h : Normal cs) :
    ∀ s ∈ segments (ofComponents cs).text.toList, s ≠ ['.'] := by
  have hsteps : ∀ {steps}, Steps steps →
      ∀ s ∈ segments ("/".intercalate (steps.map Component.text)).toList, s ≠ ['.'] := by
    intro steps hsteps s hs
    by_cases hne : steps = []
    · subst hne
      rw [List.mem_singleton.mp hs]
      simp
    · rw [segments_intercalate_text hne hsteps] at hs
      obtain ⟨c, hc, rfl⟩ := List.mem_map.mp hs
      exact (hsteps c hc).text_ne_current
  obtain ⟨steps, h, rfl | rfl⟩ := h
  · rw [ofComponents_steps h]
    exact hsteps h
  · have htext : (ofComponents (.root :: steps)).text.toList =
        '/' :: ("/".intercalate (steps.map Component.text)).toList := by
      simp [ofComponents]
    rw [htext, segments, if_pos rfl, List.forall_mem_cons]
    exact ⟨by simp, hsteps h⟩

theorem isStep_of_mem_evaluate {p : Path} {c : Component} (hc : c ∈ evaluate p.components)
    (hname : c.isName) : c.IsStep := by
  obtain ⟨steps, hsteps, he | he⟩ := normal_evaluate_components p
  · exact hsteps c (he ▸ hc)
  · rw [he] at hc
    rcases List.mem_cons.mp hc with rfl | hc
    · cases hname
    · exact hsteps c hc

/-- A normalised path is made of names, behind the root or behind steps upwards. -/
theorem exists_normalize_eq (p : Path) :
    ∃ k names, (∀ c ∈ names, Component.isName c ∧ c.IsStep) ∧
      p.normalize.components =
        (if p.isAbsolute then [.root] else List.replicate k .up) ++ names := by
  obtain ⟨k, names, hnames, he⟩ := exists_evaluate_components p
  refine ⟨k, names, fun c hc ↦ ⟨hnames c hc, ?_⟩, components_normalize p ▸ he⟩
  exact isStep_of_mem_evaluate (he ▸ List.mem_append_right _ hc) (hnames c hc)

/-! ### References from normalised files -/

/-- Behind its parent, the normal form of a path that ends in a name leads where the path does. -/
theorem evaluate_parent_normalize {p : Path} {s : String} (h : p.fileName? = some s)
    (cs : List Component) :
    evaluate (stepsOf (p.normalize.parent?.getD ⟨""⟩).text.toList ++ cs) =
      evaluate (stepsOf (p.parent?.getD ⟨""⟩).text.toList ++ cs) := by
  rw [fileName?_eq, lastName_eq_some_iff] at h
  obtain ⟨init, hinit⟩ := List.getLast?_eq_some_iff.mp h
  have hparent : evaluate (p.parent?.getD ⟨""⟩).components = evaluate init := by
    rw [evaluate_components, stepsOf_parent, hinit, List.dropLast_concat]
  have hlast : evaluate p.components = evaluate init ++ [.name s] := by
    rw [evaluate_components, hinit, evaluate_concat]
    simp [pushComponent]
  rw [stepsOf_parent, stepsOf_normalize, hlast, List.dropLast_concat, ← hparent,
    evaluate_append_left]
  exact evaluate_append_congr (evaluate_components _) cs

end Path

/-- A reference leads to the same file from a file that has a name and from the normal form of its
path. -/
theorem resolveReference_normalize (base : Option Path) (written : String) {file : Path}
    (h : file.fileName?.isSome) :
    resolveReference base written (some file.normalize) =
      resolveReference base written (some file) := by
  obtain ⟨s, hs⟩ := Option.isSome_iff_exists.mp h
  exact resolveReference_congr_parent (Path.evaluate_parent_normalize hs) base written

/-- Normalisation keeps a path absolute or relative, leaves no `.` and no `..` but in front of a
relative path, and does so once and for all; the parts of a joined path can be normalised
beforehand, and so can the path of the file that holds a reference. -/
theorem Path.normalize_lexical (p : Path) :
    p.normalize.isAbsolute = p.isAbsolute ∧
      (∃ k names, (∀ c ∈ names, Component.isName c ∧ c.IsStep) ∧
        p.normalize.components =
          (if p.isAbsolute then [.root] else List.replicate k .up) ++ names) ∧
      (∀ s ∈ segments p.normalize.text.toList, s ≠ ['.']) ∧
      p.normalize.normalize = p.normalize ∧
      (∀ q : Path, ¬ q.isAbsolute →
        (p.join q).normalize = (p.normalize.join q.normalize).normalize) ∧
      (p.fileName?.isSome → ∀ base written,
        resolveReference base written (some p.normalize) =
          resolveReference base written (some p)) :=
  ⟨p.isAbsolute_normalize, p.exists_normalize_eq,
    segments_ofComponents (normal_evaluate_components p), p.normalize_normalize,
    fun _ hq ↦ (p.normalize_join hq).symm,
    fun h base written ↦ resolveReference_normalize base written h⟩

/-- Steps upwards over the beginning of the path that is joined to, over nothing, and over the
root. -/
theorem Path.normalize_lexical_partials :
    (Path.normalize ⟨"./a/../../b//c/."⟩) = ⟨"../b/c"⟩ ∧
      (Path.join ⟨"a/./b"⟩ ⟨"../../../c"⟩).normalize =
        ((Path.normalize ⟨"a/./b"⟩).join (Path.normalize ⟨"../../../c"⟩)).normalize ∧
      resolveReference none "../x.tmpl" (some (Path.normalize ⟨"/../site/./views/page.tmpl"⟩)) =
        resolveReference none "../x.tmpl" (some ⟨"/../site/./views/page.tmpl"⟩) := by
  refine ⟨by decide +kernel, ?_, ?_⟩
  · obtain ⟨-, -, -, -, hjoin, -⟩ := Path.normalize_lexical ⟨"a/./b"⟩
    exact hjoin _ (by decide +kernel)
  · obtain ⟨-, -, -, -, -, hreference⟩ := Path.normalize_lexical ⟨"/../site/./views/page.tmpl"⟩
    exact hreference (by decide +kernel) _ _

end Templating
