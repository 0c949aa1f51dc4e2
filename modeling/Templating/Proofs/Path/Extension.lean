import Templating.Proofs.Path.Rooted

/-!
# Extensions of written paths

A path that ends in a name leads to a file of that name (`fileName?_of_resolveReference`), so its
extension can be read off the path. Blanks around a path change this reading: behind the path
they belong to the extension, and in front of it they make a name of what was only an extension
(`Path.extension?_append_eq_some_iff`).
-/

namespace Templating

namespace Path

/-! ### The last name -/

/-- The name in which steps end. -/
def lastName (cs : List Component) : Option String :=
  match cs.getLast? with
  | some (.name s) => some s
  | _ => none

theorem lastName_eq_some_iff {cs : List Component} {s : String} :
    lastName cs = some s ↔ cs.getLast? = some (.name s) := by
  unfold lastName
  split
  · next t ht => simp [ht]
  · next h =>
    constructor
    · nofun
    · intro hs
      exact absurd hs (h s)

theorem lastName_append (as : List Component) {bs : List Component} (h : bs ≠ []) :
    lastName (as ++ bs) = lastName bs := by
  rw [lastName, List.getLast?_append_of_ne_nil _ h, lastName]

theorem lastName_evaluate {cs : List Component} {s : String} (h : lastName cs = some s) :
    lastName (evaluate cs) = some s := by
  obtain ⟨init, rfl⟩ := List.getLast?_eq_some_iff.mp (lastName_eq_some_iff.mp h)
  rw [evaluate_concat, lastName_eq_some_iff]
  simp [pushComponent]

/-- The steps of a path are its components, but for a leading `.`. -/
theorem components_cases (p : Path) :
    p.components = stepsOf p.text.toList ∨ p.components = .current :: stepsOf p.text.toList := by
  have hfilter := filter_componentsOf p.text.toList
  have hsteps : ∀ {cs : List Component}, Steps cs → cs.filter (· ≠ .current) = cs := by
    intro cs hcs
    refine List.filter_eq_self.mpr fun c hc ↦ ?_
    have hstep := hcs c hc
    cases c with
    | current => cases hstep
    | _ => rfl
  obtain ⟨steps, h, he | he | he⟩ := exists_steps_components p
  · rw [components] at he
    rw [he, hsteps h] at hfilter
    exact .inl (he.trans hfilter)
  · rw [components] at he
    rw [he, List.filter_cons_of_pos (by simp), hsteps h] at hfilter
    exact .inl (he.trans hfilter)
  · rw [components] at he
    rw [he, List.filter_cons_of_neg (by simp), hsteps h] at hfilter
    exact .inr (he.trans (congrArg _ hfilter))

theorem fileName?_eq (p : Path) : p.fileName? = lastName (stepsOf p.text.toList) := by
  change lastName p.components = _
  rcases components_cases p with h | h
  · rw [h]
  · rw [h]
    cases hsteps : stepsOf p.text.toList with
    | nil => rfl
    | cons c cs => exact lastName_append [.current] (List.cons_ne_nil c cs)

theorem fileName?_join {p q : Path} {s : String} (h : q.fileName? = some s) :
    (p.join q).fileName? = some s := by
  by_cases hq : q.isAbsolute
  · rw [join_of_isAbsolute hq, h]
  · rw [fileName?_eq] at h ⊢
    rw [stepsOf_join (mt isAbsolute_iff.mpr hq), lastName_append, h]
    rintro he
    rw [he] at h
    cases h

theorem fileName?_normalize {p : Path} {s : String} (h : p.fileName? = some s) :
    p.normalize.fileName? = some s := by
  change lastName p.normalize.components = _
  rw [components_normalize]
  exact lastName_evaluate h

end Path

/-- A reference that ends in a name leads to a file of that name. -/
theorem fileName?_of_resolveReference {base source : Option Path} {written s : String} {f : Path}
    (h : resolveReference base written source = .ok f)
    (hs : Path.fileName? ⟨Text.trim written⟩ = some s) : f.fileName? = some s := by
  unfold resolveReference at h
  dsimp only at h
  split at h
  · next rooted hrooted =>
    have hname : Path.fileName? ⟨String.ofList rooted⟩ = some s := by
      rw [Path.fileName?_eq] at hs ⊢
      rw [hrooted, Path.stepsOf_slash] at hs
      have hne : Path.named (Path.segments rooted) ≠ [] := by
        intro he
        rw [he] at hs
        cases hs
      rw [← List.singleton_append, Path.lastName_append _ hne] at hs
      rw [String.toList_ofList, Path.stepsOf, Path.lastName_append _ hne, hs]
    cases base with
    | none => cases h
    | some dir =>
      rw [← Except.ok.inj h]
      exact Path.fileName?_normalize (Path.fileName?_join hname)
  · cases source with
    | none => cases h
    | some file =>
      rw [← Except.ok.inj h]
      exact Path.fileName?_normalize (Path.fileName?_join hs)

theorem extension?_of_resolveReference {base source : Option Path} {written s : String} {f : Path}
    (h : resolveReference base written source = .ok f)
    (hs : Path.fileName? ⟨Text.trim written⟩ = some s) :
    f.extension? = Path.extension? ⟨Text.trim written⟩ := by
  rw [Path.extension?, Path.extension?, fileName?_of_resolveReference h hs, hs]

namespace Path

/-! ### Extensions -/

theorem extensionOf_eq_some_iff {name ext : List Char} :
    extensionOf name = some ext ↔
      '.' ∉ ext ∧ ∃ stem, stem ≠ [] ∧ name = stem ++ '.' :: ext := by
  constructor
  · intro h
    unfold extensionOf at h
    dsimp only at h
    split at h
    · cases h
    · next hlong =>
      have hsplit := List.takeWhile_append_dropWhile (p := (· ≠ '.')) (l := name.reverse)
      cases h
      refine ⟨fun hmem ↦ ?_, ?_⟩
      · simpa using List.mem_takeWhile_imp (List.mem_reverse.mp hmem)
      · cases hrest : name.reverse.dropWhile (· ≠ '.') with
        | nil =>
          rw [hrest, List.append_nil] at hsplit
          rw [hsplit, List.length_reverse] at hlong
          omega
        | cons c rest =>
          obtain rfl : c = '.' := by
            have hhead := List.head?_dropWhile_not (fun d : Char ↦ decide (d ≠ '.')) name.reverse
            rw [hrest] at hhead
            simpa using hhead
          have hname :
              name = rest.reverse ++ '.' :: (name.reverse.takeWhile (· ≠ '.')).reverse := by
            rw [hrest] at hsplit
            simpa using (congrArg List.reverse hsplit).symm
          refine ⟨rest.reverse, fun hnil ↦ hlong ?_, hname⟩
          have hlength := congrArg List.length hname
          rw [hnil, List.nil_append, List.length_cons, List.length_reverse] at hlength
          exact hlength.le
  · rintro ⟨hdot, stem, hstem, rfl⟩
    have htail : (stem ++ '.' :: ext).reverse.takeWhile (· ≠ '.') = ext.reverse := by
      rw [List.reverse_append, List.reverse_cons, List.append_assoc, List.takeWhile_append_of_pos]
      · simp
      · intro c hc
        simpa using fun he : c = '.' ↦ hdot (he ▸ List.mem_reverse.mp hc)
    have hlength := List.length_pos_of_ne_nil hstem
    rw [extensionOf, htail, if_neg, List.reverse_reverse]
    simp only [List.length_append, List.length_cons, List.length_reverse]
    omega

/-- In front of a name, characters without a dot make a stem of their own. -/
theorem extensionOf_append_iff {b name ext : List Char} (hne : b ≠ []) (hb : '.' ∉ b) :
    extensionOf (b ++ name) = some ext ↔ '.' ∉ ext ∧ ∃ stem, name = stem ++ '.' :: ext := by
  rw [extensionOf_eq_some_iff]
  refine and_congr_right fun _ ↦ ⟨?_, ?_⟩
  · rintro ⟨stem, -, he⟩
    rcases List.append_eq_append_iff.mp he with ⟨stem, rfl, rfl⟩ | ⟨rest, rfl, hrest⟩
    · exact ⟨stem, rfl⟩
    · cases rest with
      | nil => exact ⟨[], hrest.symm⟩
      | cons c rest =>
        obtain rfl : '.' = c := (List.cons.inj hrest).1
        exact absurd (List.mem_append_right _ List.mem_cons_self) hb
  · rintro ⟨stem, rfl⟩
    exact ⟨b ++ stem, by simp [hne], (List.append_assoc ..).symm⟩

theorem extension?_eq_some_iff {p : Path} {ext : String} :
    p.extension? = some ext ↔
      ∃ s, p.fileName? = some s ∧ extensionOf s.toList = some ext.toList := by
  simp only [extension?, Option.map_eq_some_iff, Option.bind_eq_some_iff]
  constructor
  · rintro ⟨e, ⟨s, hs, he⟩, rfl⟩
    exact ⟨s, hs, by rw [he, String.toList_ofList]⟩
  · rintro ⟨s, hs, he⟩
    exact ⟨ext.toList, ⟨s, hs, he⟩, String.ofList_toList⟩

/-! ### Blanks -/

theorem exists_segments_concat {c : Char} (hc : c ≠ '/') (cs : List Char) :
    ∃ init t, segments (cs ++ [c]) = init ++ [t ++ [c]] := by
  induction cs with
  | nil => exact ⟨[], [], by simp [segments, hc]⟩
  | cons d cs ih =>
    obtain ⟨init, t, he⟩ := ih
    rw [List.cons_append, segments, he]
    split
    · exact ⟨[] :: init, t, rfl⟩
    · cases init with
      | nil => exact ⟨[], d :: t, rfl⟩
      | cons s init => exact ⟨(d :: s) :: init, t, rfl⟩

theorem segments_append_of_slashless {b cs s : List Char} {ss : List (List Char)}
    (hb : Slashless b) (h : segments cs = s :: ss) : segments (b ++ cs) = (b ++ s) :: ss := by
  induction b with
  | nil => exact h
  | cons c b ih =>
    simp only [Slashless, List.mem_cons, not_or] at hb
    rw [List.cons_append, segments, if_neg (Ne.symm hb.1), ih hb.2]
    rfl

theorem Component.ofSegment_of_mem {s : List Char} {c : Char} (hc : c ∈ s) (hdot : c ≠ '.') :
    ofSegment s = some (.name (String.ofList s)) := by
  rw [ofSegment, if_neg, if_neg]
  · rintro rfl
    simp_all
  · rintro (rfl | rfl) <;> simp_all

theorem Component.eq_toList_of_ofSegment {s : List Char} {x : String}
    (h : ofSegment s = some (.name x)) : s = x.toList := by
  unfold ofSegment at h
  split at h
  · cases h
  · split at h
    · cases h
    · cases h
      exact String.toList_ofList.symm

/-- A path that ends in a plain character has an extension that ends in it. -/
theorem getLast?_of_extension? {p : Path} {c : Char} {ext : String}
    (hlast : p.text.toList.getLast? = some c) (hslash : c ≠ '/') (hdot : c ≠ '.')
    (h : p.extension? = some ext) : ext.toList.getLast? = some c := by
  obtain ⟨cs, hcs⟩ := List.getLast?_eq_some_iff.mp hlast
  obtain ⟨init, t, hsegments⟩ := exists_segments_concat hslash cs
  have hstep := Component.ofSegment_of_mem (s := t ++ [c]) (by simp) hdot
  have hname : p.fileName? = some (String.ofList (t ++ [c])) := by
    rw [fileName?_eq, hcs, stepsOf, hsegments, List.filterMap_append,
      List.filterMap_cons_some hstep, List.filterMap_nil, ← List.append_assoc,
      lastName_append _ (List.cons_ne_nil _ _)]
    rfl
  obtain ⟨x, hx, hext⟩ := extension?_eq_some_iff.mp h
  obtain rfl := Option.some.inj (hname.symm.trans hx)
  rw [String.toList_ofList] at hext
  obtain ⟨-, stem, -, he⟩ := extensionOf_eq_some_iff.mp hext
  have hc := congrArg List.getLast? he
  rw [List.getLast?_concat, List.getLast?_append_of_ne_nil _ (List.cons_ne_nil _ _)] at hc
  cases hchars : ext.toList with
  | nil =>
    rw [hchars] at hc
    exact absurd (Option.some.inj hc) hdot
  | cons d ds => rw [hc, hchars, List.getLast?_cons_cons]

theorem Component.ofSegment_eq_none_iff {s : List Char} :
    ofSegment s = none ↔ s = [] ∨ s = ['.'] := by
  unfold ofSegment
  split
  · next h => exact iff_of_true rfl h
  · next h => split <;> exact iff_of_false nofun h

/-- Only the empty text and what begins with a slash have an empty first segment. -/
theorem eq_nil_or_slash_of_segments {cs : List Char} {ss : List (List Char)}
    (hs : segments cs = [] :: ss) : cs = [] ∨ ∃ tail, cs = '/' :: tail := by
  cases cs with
  | nil => exact .inl rfl
  | cons c cs =>
    obtain ⟨t, ts, ht⟩ := List.exists_cons_of_ne_nil (segments_ne_nil cs)
    by_cases hc : c = '/'
    · exact .inr ⟨cs, by rw [hc]⟩
    · rw [segments, if_neg hc, ht] at hs
      cases hs

/-- The only component of a path is a name if its first segment is, and the others are empty. -/
theorem componentsOf_eq_singleton_iff {cs s : List Char} {ss : List (List Char)} {x : String}
    (hs : segments cs = s :: ss) :
    componentsOf cs = [.name x] ↔ Component.ofSegment s = some (.name x) ∧ named ss = [] := by
  constructor
  · intro h
    unfold componentsOf at h
    split at h
    · cases h
    · next hroot =>
      rw [hs] at h
      split at h
      · cases h
      · next hcurrent =>
        cases hstep : Component.ofSegment s with
        | none =>
          rcases Component.ofSegment_eq_none_iff.mp hstep with rfl | rfl
          · rcases eq_nil_or_slash_of_segments hs with rfl | ⟨tail, rfl⟩
            · cases hs
              cases h
            · exact absurd rfl (hroot tail)
          · exact absurd rfl (hcurrent ss)
        | some c =>
          rw [List.filterMap_cons_some hstep] at h
          exact ⟨congrArg some (List.cons.inj h).1, (List.cons.inj h).2⟩
  · rintro ⟨hstep, hss⟩
    have hempty : s ≠ [] := by
      rintro rfl
      cases hstep
    have hcurrent : s ≠ ['.'] := by
      rintro rfl
      cases hstep
    rw [componentsOf_relative hs hempty hcurrent, hs, List.filterMap_cons_some hstep]
    exact congrArg _ hss

theorem lastName_stepsOf {cs s : List Char} {ss : List (List Char)}
    (hs : segments cs = s :: ss) (hss : named ss ≠ []) :
    lastName (stepsOf cs) = lastName (named ss) := by
  have hnamed : (s :: ss).filterMap Component.ofSegment = named [s] ++ named ss :=
    List.filterMap_append (l := [s])
  rw [stepsOf, hs, hnamed, ← List.append_assoc, lastName_append _ hss]

theorem lastName_stepsOf_iff {cs s : List Char} {ss : List (List Char)} {x : String}
    (hs : segments cs = s :: ss) (hss : named ss = []) :
    lastName (stepsOf cs) = some x ↔ Component.ofSegment s = some (.name x) := by
  unfold named at hss
  rw [stepsOf, hs]
  cases hstep : Component.ofSegment s with
  | none =>
    rw [List.filterMap_cons_none hstep, hss, List.append_nil]
    split <;> simp [lastName]
  | some c =>
    rw [List.filterMap_cons_some hstep, hss, lastName_append _ (List.cons_ne_nil _ _),
      lastName_eq_some_iff]
    simp

/-- In front of a path without blanks, blanks make a name of an extension that is all of the path,
and leave other extensions as they are. -/
theorem extension?_append_eq_some_iff {b : List Char} (cs : List Char) {ext : String}
    (hne : b ≠ []) (hb : ∀ c ∈ b, c ≠ '/' ∧ c ≠ '.') (hext : ext.toList ≠ [])
    (hdot : '.' ∉ ext.toList) :
    extension? ⟨String.ofList (b ++ cs)⟩ = some ext ↔
      extension? ⟨String.ofList cs⟩ = some ext ∨
        components ⟨String.ofList cs⟩ = [.name ("." ++ ext)] := by
  obtain ⟨s, ss, hs⟩ := List.exists_cons_of_ne_nil (segments_ne_nil cs)
  have hbs := segments_append_of_slashless (fun h ↦ (hb _ h).1 rfl) hs
  obtain ⟨c, b, rfl⟩ := List.exists_cons_of_ne_nil hne
  have hstep := Component.ofSegment_of_mem (s := c :: b ++ s) (by simp) (hb c List.mem_cons_self).2
  simp only [extension?_eq_some_iff, fileName?_eq, components, String.toList_ofList]
  by_cases hss : named ss = []
  · simp only [lastName_stepsOf_iff hbs hss, lastName_stepsOf_iff hs hss,
      componentsOf_eq_singleton_iff hs, hss, and_true, hstep]
    have hdotless : '.' ∉ c :: b := fun h ↦ (hb _ h).2 rfl
    constructor
    · rintro ⟨x, ⟨⟩, he⟩
      rw [String.toList_ofList, extensionOf_append_iff hne hdotless] at he
      obtain ⟨-, stem, rfl⟩ := he
      obtain ⟨d, e, hde⟩ := List.exists_cons_of_ne_nil hext
      have hname := Component.ofSegment_of_mem (s := stem ++ '.' :: ext.toList) (c := d)
        (by simp [hde]) (by rintro rfl; simp [hde] at hdot)
      by_cases hstem : stem = []
      · subst hstem
        exact .inr (by simpa using hname)
      · refine .inl ⟨_, hname, extensionOf_eq_some_iff.mpr ⟨hdot, stem, hstem, ?_⟩⟩
        exact String.toList_ofList
    · intro h
      refine ⟨_, rfl, ?_⟩
      rw [String.toList_ofList, extensionOf_append_iff hne hdotless]
      refine ⟨hdot, ?_⟩
      rcases h with ⟨x, hx, he⟩ | hx
      · obtain ⟨-, stem, -, he⟩ := extensionOf_eq_some_iff.mp he
        exact ⟨stem, by rw [Component.eq_toList_of_ofSegment hx, he]⟩
      · exact ⟨[], by simp [Component.eq_toList_of_ofSegment hx]⟩
  · simp only [lastName_stepsOf hbs hss, lastName_stepsOf hs hss, componentsOf_eq_singleton_iff hs,
      hss, and_false, or_false]

end Path

end Templating
