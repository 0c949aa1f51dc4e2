import Templating.Proofs.Path.Spelling

/-!
# Paths below the base directory

Evaluated steps climb some levels and then go down, so what steps do behind others is told by
their evaluation (`Path.foldl_evaluate`, `Path.evaluate_append_of_absolute`). A path that begins
with a slash is taken below the base directory if no second slash follows; one slash alone is
taken away from it, so that a path with more of them is still absolute and leads past the base
directory (`resolveReference_rooted`).
-/

namespace Templating

namespace Path

/-! ### Steps behind steps -/

theorem evaluate_append (as bs : List Component) :
    evaluate (as ++ bs) = (bs.foldl pushComponent (evaluate as).reverse).reverse := by
  rw [evaluate, List.foldl_append, evaluate, List.reverse_reverse]

theorem evaluate_concat (cs : List Component) (c : Component) :
    evaluate (cs ++ [c]) = (pushComponent (evaluate cs).reverse c).reverse :=
  evaluate_append cs [c]

theorem evaluate_append_congr {as bs : List Component} (h : evaluate as = evaluate bs)
    (cs : List Component) : evaluate (as ++ cs) = evaluate (bs ++ cs) := by
  rw [evaluate_append, h, ← evaluate_append]

theorem mem_pushComponent {stack : List Component} {c d : Component}
    (h : d ∈ pushComponent stack c) : d ∈ stack ∨ d = c := by
  cases c with
  | current => exact .inl h
  | root => exact (List.mem_cons.mp h).symm
  | name s => exact (List.mem_cons.mp h).symm
  | up =>
    match stack with
    | .name _ :: _ => exact .inl (List.mem_cons_of_mem _ h)
    | .root :: _ => exact .inl h
    | [] | .current :: _ | .up :: _ => exact (List.mem_cons.mp h).symm

/-- Evaluation adds no root. -/
theorem root_notMem_evaluate {cs : List Component} (h : .root ∉ cs) : .root ∉ evaluate cs := by
  induction cs using List.reverseRecOn with
  | nil => exact List.not_mem_nil
  | append_singleton cs c ih =>
    rw [List.mem_append, List.mem_singleton, not_or] at h
    intro hmem
    rw [evaluate_concat, List.mem_reverse] at hmem
    rcases mem_pushComponent hmem with hmem | hmem
    · exact ih h.1 (List.mem_reverse.mp hmem)
    · exact h.2 hmem

/-- What is left of steps after their evaluation takes the same way, from any place. -/
theorem foldl_evaluate {cs : List Component} (h : .root ∉ cs) (stack : List Component) :
    (evaluate cs).foldl pushComponent stack = cs.foldl pushComponent stack := by
  induction cs using List.reverseRecOn with
  | nil => rfl
  | append_singleton cs c ih =>
    rw [List.mem_append, List.mem_singleton, not_or] at h
    rw [List.foldl_append, ← ih h.1, evaluate_concat]
    have hroot := root_notMem_evaluate h.1
    rw [← List.mem_reverse] at hroot
    rw [← List.reverse_reverse (evaluate cs)]
    generalize (evaluate cs).reverse = w at hroot ⊢
    rw [List.reverse_reverse]
    cases c with
    | root => exact absurd rfl h.2
    | current => rfl
    | name s => simp [pushComponent]
    | up =>
      -- a name in front is taken back, from `w` as from the place where `w` leads
      match w with
      | [] => rfl
      | .root :: _ => exact absurd List.mem_cons_self hroot
      | .current :: w | .up :: w => simp [pushComponent]
      | .name s :: w => simp [pushComponent]

/-! ### Climbing and descending -/

/-- A named step. -/
def Component.isName : Component → Bool
  | .name _ => true
  | _ => false

/-- The number of levels that steps lead above the place where they begin. -/
def climb (cs : List Component) : Nat := ((evaluate cs).takeWhile (· = .up)).length

theorem foldl_pushComponent_of_names {names : List Component} (h : ∀ c ∈ names, c.isName)
    (stack : List Component) : names.foldl pushComponent stack = names.reverse ++ stack := by
  induction names generalizing stack with
  | nil => rfl
  | cons c names ih =>
    rw [List.forall_mem_cons] at h
    cases c with
    | name s => rw [List.foldl_cons, ih h.2, List.reverse_cons, List.append_assoc]; rfl
    | _ => exact absurd h.1 Bool.false_ne_true

theorem foldl_pushComponent_replicate_up {names : List Component} (h : ∀ c ∈ names, c.isName)
    (k : Nat) :
    (List.replicate k Component.up).foldl pushComponent (names ++ [.root]) =
      names.drop k ++ [.root] := by
  induction k generalizing names with
  | zero => rfl
  | succ k ih =>
    rw [List.replicate_succ, List.foldl_cons]
    match names with
    | [] => simpa [pushComponent] using ih (List.forall_mem_nil _)
    | .name s :: names => exact ih (List.forall_mem_cons.mp h).2
    | .root :: _ | .current :: _ | .up :: _ =>
      exact absurd (List.forall_mem_cons.mp h).1 Bool.false_ne_true

theorem exists_evaluate_replicate {cs : List Component} (h : .root ∉ cs) :
    ∃ k names, (∀ c ∈ names, Component.isName c) ∧
      evaluate cs = List.replicate k .up ++ names := by
  induction cs using List.reverseRecOn with
  | nil => exact ⟨0, [], by simp, rfl⟩
  | append_singleton cs c ih =>
    rw [List.mem_append, List.mem_singleton, not_or] at h
    obtain ⟨k, names, hnames, he⟩ := ih h.1
    rw [evaluate_concat, he]
    cases c with
    | root => exact absurd rfl h.2
    | current => exact ⟨k, names, hnames, List.reverse_reverse _⟩
    | name s =>
      refine ⟨k, names ++ [.name s], ?_, by simp [pushComponent]⟩
      exact List.forall_mem_append.mpr ⟨hnames, List.forall_mem_singleton.mpr rfl⟩
    | up =>
      rcases List.eq_nil_or_concat names with rfl | ⟨init, c, rfl⟩
      · refine ⟨k + 1, [], by simp, ?_⟩
        rw [List.append_nil, List.append_nil, List.reverse_replicate]
        cases k with
        | zero => rfl
        | succ k => exact List.reverse_replicate (n := k + 2)
      · rw [List.concat_eq_append, List.forall_mem_append] at hnames
        cases c with
        | name s => exact ⟨k, init, hnames.1, by simp [pushComponent]⟩
        | _ => exact absurd (hnames.2 _ List.mem_cons_self) Bool.false_ne_true

theorem climb_eq {cs names : List Component} {k : Nat} (hnames : ∀ c ∈ names, Component.isName c)
    (he : evaluate cs = List.replicate k .up ++ names) : climb cs = k := by
  rw [climb, he, List.takeWhile_append_of_pos (by simp)]
  cases names with
  | nil => simp
  | cons c names =>
    cases c with
    | name s => simp
    | _ => exact absurd (hnames _ List.mem_cons_self) Bool.false_ne_true

/-- Evaluated steps climb, then descend. -/
theorem exists_evaluate_eq {cs : List Component} (h : .root ∉ cs) :
    ∃ names, (∀ c ∈ names, Component.isName c) ∧
      evaluate cs = List.replicate (climb cs) .up ++ names := by
  obtain ⟨k, names, hnames, he⟩ := exists_evaluate_replicate h
  exact ⟨names, hnames, climb_eq hnames he ▸ he⟩

/-- Behind names and a root, steps take back as many names as they climb, and then descend. -/
theorem foldl_pushComponent_of_absolute {names cs : List Component}
    (hnames : ∀ c ∈ names, Component.isName c) (hcs : .root ∉ cs) :
    cs.foldl pushComponent (names ++ [.root]) =
      ((evaluate cs).drop (climb cs)).reverse ++ (names.drop (climb cs) ++ [.root]) := by
  obtain ⟨below, hbelow, he⟩ := exists_evaluate_eq hcs
  have hdrop : (evaluate cs).drop (climb cs) = below := by
    rw [he, List.drop_left' List.length_replicate]
  rw [← foldl_evaluate hcs, hdrop, he, List.foldl_append,
    foldl_pushComponent_replicate_up hnames, foldl_pushComponent_of_names hbelow]

theorem isName_of_mem_drop_climb {cs : List Component} (h : .root ∉ cs) {c : Component}
    (hc : c ∈ (evaluate cs).drop (climb cs)) : c.isName := by
  obtain ⟨below, hbelow, he⟩ := exists_evaluate_eq h
  rw [he, List.drop_left' List.length_replicate] at hc
  exact hbelow c hc

/-- The root takes in all that steps climb. -/
theorem evaluate_root_cons {cs : List Component} (h : .root ∉ cs) :
    evaluate (.root :: cs) = .root :: (evaluate cs).drop (climb cs) := by
  have hfold := foldl_pushComponent_of_absolute (List.forall_mem_nil _) h
  rw [List.drop_nil, List.nil_append] at hfold
  rw [evaluate, List.foldl_cons]
  change (cs.foldl pushComponent [.root]).reverse = _
  rw [hfold, List.reverse_append, List.reverse_reverse, List.reverse_singleton,
    List.singleton_append]

theorem evaluate_root_cons_append {as cs : List Component} (has : .root ∉ as) (hcs : .root ∉ cs) :
    evaluate (.root :: as ++ cs) =
      .root :: ((((evaluate as).drop (climb as)).reverse.drop (climb cs)).reverse ++
        (evaluate cs).drop (climb cs)) := by
  have hnames : ∀ c ∈ ((evaluate as).drop (climb as)).reverse, Component.isName c :=
    fun c hc ↦ isName_of_mem_drop_climb has (List.mem_reverse.mp hc)
  rw [evaluate_append, evaluate_root_cons has, List.reverse_cons,
    foldl_pushComponent_of_absolute hnames hcs]
  simp

/-! ### Roots -/

theorem isAbsolute_iff {p : Path} : p.isAbsolute ↔ p.text.toList.head? = some '/' := by
  unfold isAbsolute
  cases p.text.toList with
  | nil => simp
  | cons c cs => by_cases hc : c = '/' <;> simp [hc]

theorem root_notMem_named (ss : List (List Char)) : .root ∉ named ss := by
  intro h
  obtain ⟨s, -, hs⟩ := List.mem_filterMap.mp h
  unfold Component.ofSegment at hs
  split at hs
  · cases hs
  · split at hs <;> cases hs

theorem components_of_isAbsolute {p : Path} (h : p.isAbsolute) :
    p.components = .root :: p.components.tail ∧ .root ∉ p.components.tail := by
  obtain ⟨cs, hcs⟩ := List.head?_eq_some_iff.mp (isAbsolute_iff.mp h)
  rw [components, hcs, componentsOf_slash]
  exact ⟨rfl, root_notMem_named _⟩

theorem root_notMem_components {p : Path} (h : ¬ p.isAbsolute) : .root ∉ p.components := by
  intro hroot
  have hsteps : .root ∈ stepsOf p.text.toList := by
    rw [← filter_componentsOf]
    exact List.mem_filter.mpr ⟨hroot, rfl⟩
  rw [stepsOf, if_neg (mt isAbsolute_iff.mpr h), List.nil_append] at hsteps
  exact root_notMem_named _ hsteps

/-- Steps behind a path lead to the same place as from the root exactly if the path is absolute
and they climb all of it. -/
theorem evaluate_append_eq_iff {p : Path} {cs : List Component} (hcs : .root ∉ cs) :
    evaluate (p.components ++ cs) = evaluate (.root :: cs) ↔
      p.isAbsolute ∧ (evaluate p.components).length ≤ climb cs + 1 := by
  by_cases hp : p.isAbsolute
  · obtain ⟨he, hroot⟩ := components_of_isAbsolute hp
    rw [he, evaluate_root_cons_append hroot hcs, evaluate_root_cons hcs, evaluate_root_cons hroot]
    simp [hp]
  · have hroot : .root ∉ p.components ++ cs := by
      rw [List.mem_append, not_or]
      exact ⟨root_notMem_components hp, hcs⟩
    constructor
    · intro he
      rw [evaluate_root_cons hcs] at he
      exact absurd (he ▸ List.mem_cons_self) (root_notMem_evaluate hroot)
    · rintro ⟨habsolute, -⟩
      exact absurd habsolute hp

/-! ### Paths below a directory -/

/-- What a path leads to below a directory, its root left out. -/
def below (dir p : Path) : Path := ofComponents (evaluate (dir.components ++ p.components.tail))

theorem evaluate_components_join {p q : Path} (hq : ¬ q.isAbsolute) :
    evaluate (p.join q).components = evaluate (p.components ++ stepsOf q.text.toList) := by
  rw [evaluate_components, stepsOf_join (mt isAbsolute_iff.mpr hq)]
  exact evaluate_append_congr (evaluate_components p).symm _

theorem normalize_slash (cs : List Char) :
    normalize ⟨String.ofList ('/' :: '/' :: cs)⟩ = normalize ⟨String.ofList ('/' :: cs)⟩ := by
  simp [normalize, components, componentsOf_slash, segments, Component.ofSegment]

theorem join_of_isAbsolute {p q : Path} (hq : q.isAbsolute) : p.join q = q := if_pos hq

/-- With one slash in front, a path is below the directory it is joined to without the slash. -/
theorem normalize_join_eq_below (dir : Path) {cs : List Char} (h : cs.head? ≠ some '/') :
    (dir.join ⟨String.ofList cs⟩).normalize = dir.below ⟨String.ofList ('/' :: cs)⟩ := by
  have hcs : ¬ (⟨String.ofList cs⟩ : Path).isAbsolute := by
    simpa [isAbsolute_iff] using h
  rw [normalize, evaluate_components_join hcs, String.toList_ofList, stepsOf_of_head h, below]
  simp [components, componentsOf_slash]

theorem normal_evaluate_append {as bs : List Component} (ha : Normal (evaluate as))
    (hb : Steps bs) : Normal (evaluate (as ++ bs)) := by
  obtain ⟨steps, hsteps, he⟩ := ha
  have hreverse : Steps steps.reverse := fun c hc ↦ hsteps c (List.mem_reverse.mp hc)
  have hbase : ∃ base, (base = [] ∨ base = [Component.root]) ∧
      (evaluate as).reverse = steps.reverse ++ base := by
    rcases he with he | he
    · exact ⟨[], .inl rfl, by rw [he, List.append_nil]⟩
    · exact ⟨[.root], .inr rfl, by rw [he, List.reverse_cons]⟩
  obtain ⟨base, hbase, he⟩ := hbase
  obtain ⟨stack, hstack, hfold⟩ := exists_foldl_pushComponent_eq hbase hb hreverse
  rw [evaluate_append, he, hfold, List.reverse_append]
  refine ⟨stack.reverse, fun c hc ↦ hstack c (List.mem_reverse.mp hc), ?_⟩
  rcases hbase with rfl | rfl
  · exact .inl rfl
  · exact .inr rfl

theorem ofComponents_inj {cs ds : List Component} (hc : Normal cs) (hd : Normal ds) :
    ofComponents cs = ofComponents ds ↔ cs = ds := by
  constructor
  · intro h
    rw [← components_ofComponents hc, h, components_ofComponents hd]
  · exact congrArg ofComponents

/-- An absolute path leads out of every directory whose names its steps do not all take back. -/
theorem normalize_eq_below_iff {dir p : Path} (hp : p.isAbsolute) :
    p.normalize = dir.below p ↔
      dir.isAbsolute ∧ (evaluate dir.components).length ≤ climb p.components.tail + 1 := by
  obtain ⟨hroot, htail⟩ := components_of_isAbsolute hp
  have hsteps : Steps p.components.tail := by
    obtain ⟨cs, hcs⟩ := List.head?_eq_some_iff.mp (isAbsolute_iff.mp hp)
    rw [components, hcs, componentsOf_slash]
    exact steps_filterMap_ofSegment fun s ↦ slashless_of_mem_segments
  rw [normalize, below, ofComponents_inj (normal_evaluate_components p)
    (normal_evaluate_append (normal_evaluate_components dir) hsteps),
    ← evaluate_append_eq_iff htail, ← hroot, eq_comm]

end Path

/-- A path that begins with one slash leads to a file below the base directory. A path that begins
with more of them is absolute, and leads there exactly if its `..` take back the whole base
directory. -/
theorem resolveReference_rooted (dir : Path) (written : String) (source : Option Path)
    (h : ['/'] <+: (Text.trim written).toList) :
    ∃ f, resolveReference (some dir) written source = .ok f ∧
      (¬ ['/', '/'] <+: (Text.trim written).toList → f = dir.below ⟨Text.trim written⟩) ∧
      (['/', '/'] <+: (Text.trim written).toList → f = Path.normalize ⟨Text.trim written⟩) ∧
      (f = dir.below ⟨Text.trim written⟩ ↔
        ['/', '/'] <+: (Text.trim written).toList →
          dir.isAbsolute ∧ (Path.evaluate dir.components).length ≤
            Path.climb (Path.components ⟨Text.trim written⟩).tail + 1) := by
  obtain ⟨cs, hcs⟩ := h
  rw [List.singleton_append] at hcs
  have hpath : (⟨Text.trim written⟩ : Path) = ⟨String.ofList ('/' :: cs)⟩ := by
    rw [hcs, String.ofList_toList]
  have hresolve : resolveReference (some dir) written source =
      .ok (dir.join ⟨String.ofList cs⟩).normalize := by
    simp only [resolveReference, ← hcs]
  refine ⟨_, hresolve, ?_⟩
  have hsecond : ['/', '/'] <+: '/' :: cs ↔ cs.head? = some '/' := by
    cases cs <;> simp [List.cons_prefix_cons, eq_comm]
  rw [hpath, ← hcs, hsecond]
  by_cases hdouble : cs.head? = some '/'
  · obtain ⟨ds, rfl⟩ := List.head?_eq_some_iff.mp hdouble
    have habsolute : Path.isAbsolute ⟨String.ofList ('/' :: ds)⟩ := by simp [Path.isAbsolute_iff]
    have hnormal : (dir.join ⟨String.ofList ('/' :: ds)⟩).normalize =
        Path.normalize ⟨String.ofList ('/' :: '/' :: ds)⟩ := by
      rw [Path.join_of_isAbsolute habsolute, Path.normalize_slash]
    rw [hnormal, Path.normalize_eq_below_iff (by simp [Path.isAbsolute_iff])]
    simp
  · rw [Path.normalize_join_eq_below dir hdouble]
    simp [hdouble]

/-- A path with two slashes leads past the base directory. -/
theorem resolveReference_two_slashes :
    resolveReference (some ⟨"/site"⟩) "//a.tmpl" none = .ok ⟨"/a.tmpl"⟩ ∧
      Path.below ⟨"/site"⟩ ⟨Text.trim "//a.tmpl"⟩ = ⟨"/site/a.tmpl"⟩ := by
  decide +kernel

/-- It can still come back to it with steps upwards. -/
theorem resolveReference_rooted_layouts :
    resolveReference (some ⟨"/site"⟩) " /layouts/base.tmpl " none =
        .ok (Path.below ⟨"/site"⟩ ⟨Text.trim " /layouts/base.tmpl "⟩) ∧
      resolveReference (some ⟨"/site"⟩) "//a.tmpl" none ≠
        .ok (Path.below ⟨"/site"⟩ ⟨Text.trim "//a.tmpl"⟩) ∧
      resolveReference (some ⟨"/site"⟩) "//../a.tmpl" none =
        .ok (Path.below ⟨"/site"⟩ ⟨Text.trim "//../a.tmpl"⟩) := by
  refine ⟨?_, ?_, ?_⟩
  · obtain ⟨f, hf, hbelow, -⟩ :=
      resolveReference_rooted ⟨"/site"⟩ " /layouts/base.tmpl " none (by decide +kernel)
    rw [hf, hbelow (by decide +kernel)]
  · obtain ⟨f, hf, -, -, hiff⟩ :=
      resolveReference_rooted ⟨"/site"⟩ "//a.tmpl" none (by decide +kernel)
    rw [hf, ne_eq, Except.ok.injEq, hiff]
    decide +kernel
  · obtain ⟨f, hf, -, -, hiff⟩ :=
      resolveReference_rooted ⟨"/site"⟩ "//../a.tmpl" none (by decide +kernel)
    rw [hf, hiff.mpr (by decide +kernel)]

end Templating
