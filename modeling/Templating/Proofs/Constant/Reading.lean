import Templating.Constant.Literal
import Templating.Proofs.Grammar.Brackets

/-!
# Tokens of literals

The tokens that are read as a literal, with its value (`Literal.Reads`). The parser of literals
takes them (`Literal.finds_literal`) and no others (`Literal.meets_literal`).
-/

namespace Templating.Literal

open Grammar Grammar.Parser

/-- The end of an array that is not empty: its bracket, perhaps behind a comma. -/
def closings : List (List Token) := [[.mark .bracketClose], [.mark .comma, .mark .bracketClose]]

/-- Literals with commas between them, with their values. A literal by itself is one of them. -/
inductive Reads : List Constant → List Token → Prop
  | scalar {v : Constant} {t : Token} (h : scalar? t = some v) : Reads [v] [t]
  | negative {a : Binary64} : Reads [.number a.neg] [.mark .minus, .number a]
  | empty : Reads [.array []] [.mark .bracketOpen, .mark .bracketClose]
  | array {vs : List Constant} {ts e : List Token} (h : Reads vs ts) (he : e ∈ closings) :
    Reads [.array vs] (.mark .bracketOpen :: (ts ++ e))
  | cons {v : Constant} {vs : List Constant} {ts us : List Token} (h : Reads [v] ts)
    (hs : Reads vs us) : Reads (v :: vs) (ts ++ .mark .comma :: us)

variable {v : Constant} {vs : List Constant} {ts us e : List Token} {t : Token} {c d : Cursor}
  {depth : Nat}

theorem Reads.ne_nil (h : Reads vs ts) : ts ≠ [] := by
  cases h <;> simp

theorem Reads.values_ne_nil (h : Reads vs ts) : vs ≠ [] := by
  cases h <;> simp

theorem Reads.exists_depth (h : Reads vs ts) (hdepth : ts.length ≤ depth) :
    ∃ n, depth = n + 1 := by
  have hpos := List.length_pos_iff.mpr h.ne_nil
  exact ⟨depth - 1, by omega⟩

/-! ### Literals are read -/

/-- A further item of an array. -/
abbrev more (depth : Nat) : Parser Constant := do
  mark .comma
  literal depth

theorem refuses_literal {m : Mark} (hc : c.token? = some (.mark m)) (hminus : m ≠ .minus)
    (hopen : m ≠ .bracketOpen) : (literal depth).Refuses c := by
  cases depth with
  | zero => exact fun _ ↦ rfl
  | succ depth =>
    refine .firstOf ?_
    simp only [List.forall_mem_cons]
    refine ⟨.select ?_, .bind <| .token ?_, .bind <| .between ?_, by simp⟩
    · rw [hc]
      rintro _ ⟨⟩
      rfl
    · rw [hc]
      simpa using hminus
    · rw [hc]
      simpa using hopen

theorem token?_of_passes (h : c.Passes (t :: ts) d) : c.token? = some t := by
  obtain ⟨l, rest, hrest, rfl, -⟩ := h.of_cons
  rw [Cursor.token?, hrest]
  rfl

/-- In front of the end of an array no further item is found. -/
theorem refuses_more (h : c.Passes e d) (he : e ∈ closings) : (more depth).Refuses c := by
  simp only [closings, List.mem_cons, List.not_mem_nil, or_false] at he
  rcases he with rfl | rfl
  · refine Refuses.bind (.token ?_)
    rw [token?_of_passes h]
    decide
  · obtain ⟨l, rest, hrest, hl, hnext⟩ := h.of_cons
    refine .bind_of_finds <| .token hrest hl ?_
    exact refuses_literal (token?_of_passes hnext) (by decide) (by decide)

theorem finds_closing (h : c.Passes e d) (he : e ∈ closings) {Q : Option Unit → Cursor → Prop}
    (hQ : ∀ o f, f.Passes [.mark .bracketClose] d → Q o f) :
    (optional (mark .comma)).Finds c Q := by
  simp only [closings, List.mem_cons, List.not_mem_nil, or_false] at he
  rcases he with rfl | rfl
  · refine .optional_none (.token ?_) (hQ _ _ h)
    rw [token?_of_passes h]
    decide
  · obtain ⟨l, rest, hrest, hl, hnext⟩ := h.of_cons
    exact .optional_some <| .token hrest hl (hQ _ _ hnext)

/-- Over the tokens, literals with these values are found: a single one by itself, and all of them
where no further item follows. -/
structure Taken (depth : Nat) (vs : List Constant) (ts : List Token) : Prop where
  one : ∀ {c d : Cursor} {v : Constant}, vs = [v] → c.Passes ts d →
    (literal depth).Finds c fun a e ↦ a = v ∧ e = d
  all : ∀ {c d : Cursor}, c.Passes ts d → (more depth).Refuses d →
    (literal depth).Finds c fun a e ↦ e.rest.length < c.rest.length ∧ ∀ limit,
      e.rest.length ≤ limit → (upTo (more depth) limit).Finds e fun as f ↦ a :: as = vs ∧ f = d

theorem Taken.of_one (hts : ts ≠ [])
    (h : ∀ c d : Cursor, c.Passes ts d → (literal depth).Finds c fun a e ↦ a = v ∧ e = d) :
    Taken depth [v] ts := by
  refine ⟨fun hv hd ↦ ?_, fun {c d} hd hend ↦ (h c d hd).imp ?_⟩
  · cases hv
    exact h _ _ hd
  · rintro _ _ ⟨rfl, rfl⟩
    have hlength := hd.length_eq
    have hpos := List.length_pos_iff.mpr hts
    exact ⟨by omega, fun limit _ ↦ .upTo_nil hend ⟨rfl, rfl⟩⟩

theorem finds_array (hpasses : c.Passes (.mark .bracketOpen :: us) d)
    (h : ∀ f : Cursor, f.Passes us d → (separated (literal depth) (mark .comma)).Finds f fun as g ↦
      as = vs ∧ g.Passes [.mark .bracketClose] d) :
    (literal (depth + 1)).Finds c fun a e ↦ a = .array vs ∧ e = d := by
  have hopen := token?_of_passes hpasses
  obtain ⟨l, rest, hrest, hl, hnext⟩ := hpasses.of_cons
  refine .firstOf_tail (.select ?_) <| .firstOf_tail (Refuses.bind <| .token ?_) <| .firstOf_head <|
    .bind <| .between hrest hl <| (h _ hnext).imp ?_
  · rw [hopen]
    rintro _ ⟨⟩
    rfl
  · rw [hopen]
    decide
  · rintro as g ⟨rfl, hclose⟩
    obtain ⟨m, rest', hrest', hm, hnil⟩ := hclose.of_cons
    exact ⟨m, rest', hrest', hm, .pure ⟨rfl, hnil.eq_of_nil.symm⟩⟩

theorem taken_scalar (h : scalar? t = some v) : Taken (depth + 1) [v] [t] := by
  refine .of_one (List.cons_ne_nil _ _) fun c d hd ↦ ?_
  obtain ⟨l, rest, hrest, rfl, hnil⟩ := hd.of_cons
  exact .firstOf_head <| .select hrest h ⟨rfl, hnil.eq_of_nil.symm⟩

theorem taken_negative {a : Binary64} :
    Taken (depth + 1) [.number a.neg] [.mark .minus, .number a] := by
  refine .of_one (List.cons_ne_nil _ _) fun c d hd ↦ ?_
  have hminus := token?_of_passes hd
  obtain ⟨l, rest, hrest, hl, hnext⟩ := hd.of_cons
  obtain ⟨m, rest', hrest', hm, hnil⟩ := hnext.of_cons
  refine .firstOf_tail (.select ?_) <| .firstOf_head <| .bind <| .token hrest hl <|
    .select hrest' (by rw [hm]) ⟨rfl, hnil.eq_of_nil.symm⟩
  rw [hminus]
  rintro _ ⟨⟩
  rfl

theorem taken_empty : Taken (depth + 1) [.array []] [.mark .bracketOpen, .mark .bracketClose] := by
  refine .of_one (List.cons_ne_nil _ _) fun c d hd ↦ finds_array hd fun f hf ↦ ?_
  have hrefuses : (literal depth).Refuses f :=
    refuses_literal (token?_of_passes hf) (by decide) (by decide)
  exact .bind <| .optional_none hrefuses <| .pure ⟨rfl, hf⟩

theorem Taken.array (h : Taken depth vs ts) (he : e ∈ closings) :
    Taken (depth + 1) [.array vs] (.mark .bracketOpen :: (ts ++ e)) := by
  refine .of_one (List.cons_ne_nil _ _) fun c d hd ↦ finds_array hd fun f hf ↦ ?_
  obtain ⟨g, hts, hclosing⟩ := hf.of_append
  refine .bind <| .optional_some <| (h.all hts (refuses_more hclosing he)).imp ?_
  rintro a k ⟨-, hmany⟩
  refine .bind <| .many <| (hmany _ (Nat.le_succ _)).imp ?_
  rintro as _ ⟨rfl, rfl⟩
  exact .bind <| finds_closing hclosing he fun _ _ hclose ↦ .pure ⟨rfl, hclose⟩

theorem Taken.cons (h : Taken depth [v] ts) (hts : ts ≠ []) (hs : Taken depth vs us)
    (hvs : vs ≠ []) : Taken depth (v :: vs) (ts ++ .mark .comma :: us) := by
  refine ⟨fun hv ↦ absurd (List.cons.inj hv).2 hvs, fun {c d} hd hend ↦ ?_⟩
  obtain ⟨f, hitem, hrest⟩ := hd.of_append
  obtain ⟨l, rest, hl, hcomma, hnext⟩ := hrest.of_cons
  refine (h.one rfl hitem).imp ?_
  rintro _ _ ⟨rfl, rfl⟩
  have hlength := hitem.length_eq
  have hpos := List.length_pos_iff.mpr hts
  refine ⟨by omega, fun limit hlimit ↦ .upTo_cons hlimit <| .bind <| .token hl hcomma ?_⟩
  refine (hs.all hnext hend).imp ?_
  rintro a g ⟨hlt, hmany⟩
  refine ⟨hlt.trans (Cursor.length_next hl), fun limit hlimit ↦ (hmany limit hlimit).imp ?_⟩
  rintro as _ ⟨rfl, rfl⟩
  exact ⟨rfl, rfl⟩

/-- Literals are taken where the tokens ahead are enough for their depth. -/
theorem Reads.taken (h : Reads vs ts) (hdepth : ts.length ≤ depth) : Taken depth vs ts := by
  induction h generalizing depth with
  | scalar h =>
    obtain ⟨depth, rfl⟩ := (Reads.scalar h).exists_depth hdepth
    exact taken_scalar h
  | negative =>
    obtain ⟨depth, rfl⟩ := Reads.negative.exists_depth hdepth
    exact taken_negative
  | empty =>
    obtain ⟨depth, rfl⟩ := Reads.empty.exists_depth hdepth
    exact taken_empty
  | array h he ih =>
    obtain ⟨depth, rfl⟩ := (Reads.array h he).exists_depth hdepth
    rw [List.length_cons, List.length_append] at hdepth
    exact (ih (by omega)).array he
  | cons h hs ih ihs =>
    rw [List.length_append, List.length_cons] at hdepth
    exact (ih (by omega)).cons h.ne_nil (ihs (by omega)) hs.values_ne_nil

/-! ### Nothing else is read -/

theorem meets_more
    (h : ∀ c, (literal depth).Meets c fun v d ↦ ∃ ts, c.Passes ts d ∧ Reads [v] ts) (limit : Nat) :
    (upTo (more depth) limit).Meets c fun as d ↦
      (as = [] ∧ c.Passes [] d) ∨ ∃ us, c.Passes (.mark .comma :: us) d ∧ Reads as us := by
  induction limit generalizing c with
  | zero => exact .upTo_zero (.inl ⟨rfl, Cursor.passes_nil⟩)
  | succ limit ih =>
    refine .upTo_succ (fun _ _ ↦ .inl ⟨rfl, Cursor.passes_nil⟩) <| .bind <|
      .token fun l rest hrest hl ↦ (h _).imp ?_
    rintro a d ⟨ts, hts, hread⟩
    have hitem : c.Passes (.mark .comma :: ts) d := hl ▸ (Cursor.passes_next hrest).append hts
    refine ih.imp ?_
    rintro as e (⟨rfl, he⟩ | ⟨us, hus, hmore⟩)
    · obtain rfl := he.eq_of_nil
      exact .inr ⟨ts, hitem, hread⟩
    · exact .inr ⟨ts ++ .mark .comma :: us, hitem.append hus, .cons hread hmore⟩

theorem meets_closing :
    (optional (mark .comma)).Meets c fun _ d ↦ ∃ ts, c.Passes ts d ∧
      ts ++ [.mark .bracketClose] ∈ closings := by
  refine .optional (.token fun l rest hrest hl ↦ ?_) fun _ _ ↦ ?_
  · exact ⟨[.mark .comma], hl ▸ Cursor.passes_next hrest, by simp [closings]⟩
  · exact ⟨[], Cursor.passes_nil, by simp [closings]⟩

theorem meets_negative : negative.Meets c fun v d ↦ ∃ ts, c.Passes ts d ∧ Reads [v] ts := by
  refine .bind <| .token fun l rest hrest hl ↦ .select fun m rest' a hrest' ha ↦ ?_
  split at ha
  · next hm =>
    cases ha
    refine ⟨_, (Cursor.passes_next hrest).append (Cursor.passes_next hrest'), ?_⟩
    rw [hl, hm]
    exact .negative
  · cases ha

/-- The items of an array, up to its bracket. -/
theorem meets_items
    (h : ∀ c, (literal depth).Meets c fun v d ↦ ∃ ts, c.Passes ts d ∧ Reads [v] ts) :
    (separated (literal depth) (mark .comma)).Meets c fun vs d ↦ ∃ ts, c.Passes ts d ∧
      Reads [.array vs] (.mark .bracketOpen :: (ts ++ [.mark .bracketClose])) := by
  refine .bind <| .optional ((h c).imp ?_) fun _ _ ↦ .pure ⟨[], Cursor.passes_nil, .empty⟩
  rintro a d ⟨ts, hts, hread⟩
  refine .bind fun kept as f has ↦ ?_
  have hitems : ∃ us, c.Passes us f ∧ Reads (a :: as) us := by
    rcases meets_more h _ kept as f has with ⟨rfl, hf⟩ | ⟨us, hus, hmore⟩
    · exact ⟨ts ++ [], hts.append hf, by rwa [List.append_nil]⟩
    · exact ⟨_, hts.append hus, .cons hread hmore⟩
  obtain ⟨us, hus, hread⟩ := hitems
  refine .bind <| meets_closing.imp ?_
  rintro _ g ⟨e, he, hclosing⟩
  refine .pure ⟨us ++ e, hus.append he, ?_⟩
  rw [List.append_assoc]
  exact .array hread hclosing

/-- What is taken as a literal is one. -/
theorem meets_literal (depth : Nat) :
    (literal depth).Meets c fun v d ↦ ∃ ts, c.Passes ts d ∧ Reads [v] ts := by
  induction depth generalizing c with
  | zero => nofun
  | succ depth ih =>
    refine .firstOf ?_
    simp only [List.forall_mem_cons]
    refine ⟨.select fun l rest a hrest ha ↦ ?_, meets_negative, ?_, by simp⟩
    · exact ⟨_, Cursor.passes_next hrest, .scalar ha⟩
    · refine .bind <| .between fun l rest hrest hl ↦ (meets_items fun _ ↦ ih).imp ?_
      rintro vs d ⟨ts, hts, hread⟩ m rest' hrest' hm
      refine .pure ⟨_, ((Cursor.passes_next hrest).append hts).append (Cursor.passes_next hrest'), ?_⟩
      rwa [hl, hm]

/-- Tokens have a value exactly if they are a literal. -/
theorem ofLexemes?_eq_some_iff {ls : List Lexeme} {length : Nat} :
    ofLexemes? ls length = some v ↔ Reads [v] (ls.map Lexeme.token) := by
  rw [ofLexemes?, Option.map_eq_some_iff]
  constructor
  · rintro ⟨⟨a, d⟩, had, rfl⟩
    have hwhole : (do
        let value ← literal (ls.length + 1)
        endOfText
        pure value : Parser Constant).Meets (.start ls length) fun v d ↦
          (∃ ts, (Cursor.start ls length).Passes ts d ∧ Reads [v] ts) ∧ d.rest = [] :=
      .bind <| (meets_literal _).imp fun a d h ↦ .bind <| .endOfText fun hrest ↦ .pure ⟨h, hrest⟩
    obtain ⟨⟨ts, ⟨used, hused, rfl⟩, hread⟩, hrest⟩ := hwhole none a d had
    have hall : ls = used ++ d.rest := hused.rest_eq
    rwa [hall, hrest, List.append_nil]
  · intro h
    obtain ⟨d, hd, hrest⟩ : ∃ d, (Cursor.start ls length).Takes ls d ∧ d.rest = [] :=
      Cursor.exists_takes (List.append_nil ls).symm
    have hwhole : (do
        let value ← literal (ls.length + 1)
        endOfText
        pure value : Parser Constant).Finds (.start ls length) fun a _ ↦ a = v := by
      refine .bind <| ((h.taken (by simp)).one rfl ⟨ls, hd, rfl⟩).imp ?_
      rintro a _ ⟨rfl, rfl⟩
      exact .bind <| .endOfText hrest <| .pure rfl
    obtain ⟨a, e, hae, rfl⟩ := hwhole
    exact ⟨(a, e), hae none, rfl⟩

end Templating.Literal
