import Templating.Proofs.Grammar.Brackets
import Templating.Proofs.Grammar.Reading

/-!
# Options and arguments

What the parsers of options, filters and argument lists take of a text is written as it can be
written (`Attr.IsWritten`, `FilterUse.IsWritten`, `IsArguments`), and what is written in such a way
is read again from the printed text. Lists of options are read with any gaps between their tokens
(`OptionsText.finds`).
-/

namespace Templating

open Lexer Grammar Grammar.Parser

/-- The text of an option value: balanced tokens without a comma outside of brackets. -/
def IsValue (v : List Char) : Prop := ∃ ts, Cut v ts ∧ ts ≠ [] ∧ Balanced notComma ts

/-- The text of an argument list: tokens up to a closing parenthesis. -/
def IsArguments (v : List Char) : Prop := ∃ ts, Cut v ts ∧ ∀ t ∈ ts, t ≠ .mark .parenClose

/-- The option can be written. -/
structure Attr.IsWritten (a : Attr) : Prop where
  name : IsName a.name
  value : ∀ text, a.value = .expr text → IsValue text.toList

/-- The filter can be written in a text of `file`. -/
structure FilterUse.IsWritten (file : Option Path) (u : FilterUse) : Prop where
  name : IsName u.name
  attrs : ∀ a ∈ u.attrs, a.IsWritten
  position : u.position.file = file

variable {src : Source} {c d : Cursor}

theorem Position.withoutLine_eq {file : Option Path} {p : Position} (hp : p.file = file) :
    p.withoutLine = ⟨file, 0⟩ := by
  rw [withoutLine, hp]

/-! ### What is taken is written -/

theorem meets_token (h : src.Covers c) (t : Token) : (token t).Meets c fun _ d ↦ src.Covers d :=
  .token fun _ _ hrest _ ↦ h.next hrest

theorem meets_ident (h : src.Covers c) :
    ident.Meets c fun name d ↦ IsName name ∧ src.Covers d :=
  .ident fun _ _ _ hrest hl ↦ ⟨h.isName hrest hl, h.next hrest⟩

theorem meets_optionValue (h : src.Covers c) :
    (optionValue src).Meets c fun text d ↦ IsValue text.toList ∧ src.Covers d := by
  refine .bind <| .spanned <| meets_optionTokens.imp ?_
  rintro _ d ⟨_, ⟨used, hused, rfl⟩, hne, hbalanced⟩
  have hcovers := h.takes hused
  obtain ⟨cs, pre, h⟩ := h
  obtain ⟨v, hv, hcaptured⟩ := h.exists_captured hused (by simpa using hne)
  refine .pure ⟨?_, hcovers⟩
  rw [hcaptured, String.toList_ofList]
  exact ⟨_, hv, hne, hbalanced⟩

theorem meets_attr (h : src.Covers c) :
    (attr src).Meets c fun a d ↦ a.IsWritten ∧ src.Covers d := by
  refine .bind <| (meets_ident h).imp fun name d ⟨hname, hd⟩ ↦ ?_
  refine .bind <| .optional (.bind <| (meets_token hd _).imp fun _ e he ↦
    (meets_optionValue he).imp ?_) fun _ _ ↦ ?_
  · rintro text f ⟨hvalue, hf⟩
    refine .pure ⟨⟨hname, fun text' htext ↦ ?_⟩, hf⟩
    cases htext
    exact hvalue
  · exact .pure ⟨⟨hname, fun _ htext ↦ by cases htext⟩, hd⟩

theorem meets_attrs (h : src.Covers c) :
    (attrs src).Meets c fun as d ↦ (∀ a ∈ as, a.IsWritten) ∧ src.Covers d := by
  refine .between fun l rest hrest _ ↦ ?_
  refine (Meets.separated_forall (fun _ hc ↦ meets_attr hc) (fun _ hc ↦ meets_token hc _)
    (h.next hrest)).imp ?_
  exact fun as d ⟨has, hd⟩ m rest hrest _ ↦ ⟨has, hd.next hrest⟩

theorem meets_argumentTokens (limit : Nat) :
    (upTo (passing fun t ↦ t != .mark .parenClose) limit).Meets c fun _ d ↦
      ∃ used, c.Takes used d ∧ ∀ t ∈ used.map Lexeme.token, t ≠ .mark .parenClose := by
  induction limit generalizing c with
  | zero => exact .upTo_zero ⟨[], .nil, by simp⟩
  | succ limit ih =>
    refine .upTo_succ (fun _ _ ↦ ⟨[], .nil, by simp⟩) <| .passing fun l rest hrest hl ↦ ?_
    refine ih.imp fun _ d ⟨used, hused, h⟩ ↦ ⟨l :: used, .cons hrest hused, ?_⟩
    rw [List.map_cons, List.forall_mem_cons]
    exact ⟨by simpa using hl, h⟩

theorem meets_arguments (h : src.Covers c) :
    (arguments src).Meets c fun text d ↦ IsArguments text.toList ∧ src.Covers d := by
  obtain ⟨cs, pre, h⟩ := h
  refine .between fun l rest hrest _ ↦ .bind <| .spanned fun kept as d has ↦ ?_
  obtain ⟨v, w, rfl, hnext, hstop⟩ := h.takes (Cursor.takes_next hrest) (by simp)
  obtain ⟨used, hused, hfree⟩ := meets_argumentTokens _ kept as d has
  refine .pure fun m rest' hrest' _ ↦ ⟨?_, (Source.Covers.takes ⟨_, _, hnext⟩ hused).next hrest'⟩
  by_cases hne : used = []
  · subst hne
    cases hused
    rw [hnext.captured_self hstop hrest']
    exact ⟨[], cut_nil, by simp⟩
  · obtain ⟨u, hu, hcaptured⟩ := hnext.exists_captured hused hne
    rw [hcaptured, String.toList_ofList]
    exact ⟨_, hu, hfree⟩

theorem meets_filterUse (h : src.Covers c) :
    (filterUse src).Meets c fun u d ↦ u.IsWritten src.file ∧ src.Covers d := by
  refine .bind <| .spanned <| .bind <| (meets_token h _).imp fun _ d hd ↦ .bind <|
    (meets_ident hd).imp fun name e ⟨hname, he⟩ ↦ .bind <| .optional ?_ fun _ _ ↦ ?_
  · refine (meets_attrs he).imp fun as f ⟨has, hf⟩ ↦ .pure <| .pure ⟨⟨hname, has, rfl⟩, hf⟩
  · exact .pure <| .pure ⟨⟨hname, by simp, rfl⟩, he⟩

/-! ### What is written is taken -/

theorem clear_closing {m : Mark} (hm : m = .comma ∨ m = .parenClose) (post : List Char) :
    Clear (m.char :: post) := by
  rcases hm with rfl | rfl <;> exact ⟨stops_cons.mpr rfl, stops_cons.mpr rfl⟩

theorem finds_optionValue {v g post : List Char} {m : Mark} (hm : m = .comma ∨ m = .parenClose)
    (hv : IsValue v) (hg : Gap g) (h : src.Stands (v ++ (g ++ m.char :: post)) c) :
    (optionValue src).Finds c fun text d ↦ text = String.ofList v ∧
      src.Stands (m.char :: post) d ∧ d.rest.length < c.rest.length := by
  obtain ⟨ts, hcut, hne, hbalanced⟩ := hv
  obtain ⟨pre, h⟩ := h
  obtain ⟨used, d, rfl, hused, hd, hcaptured⟩ :=
    h.cut hcut (hg.clear_append (clear_closing hm post))
  have hpasses : c.Passes (used.map Lexeme.token) d := ⟨used, hused, rfl⟩
  have hstands : src.Stands (m.char :: post) d := Source.Stands.gap hg ⟨_, hd⟩
  have hend : ∀ t ∈ d.token?, ¬ OpensPair t ∧ (notComma t = false ∨ t.isBracket) := by
    rw [hstands.token?_mark]
    rintro t ht
    obtain rfl := Option.some.inj ht
    rcases hm with rfl | rfl
    · exact ⟨not_opensPair_of_isBracket rfl, .inl rfl⟩
    · exact ⟨Pair.paren.not_opensPair, .inr rfl⟩
  refine .bind <| .spanned <| (finds_optionTokens hpasses hne hbalanced hend).imp ?_
  rintro _ _ rfl
  refine .pure ⟨hcaptured (mt hcut.eq_nil_iff.mpr hne), hstands, ?_⟩
  have hpos := List.length_pos_iff.mpr hne
  rw [hpasses.length_eq]
  omega

/-- An option as text, perhaps with gaps around the equals sign. -/
inductive OptionText : Attr → List Char → Prop
  | flag {x : String} (hx : IsName x) : OptionText ⟨x, .flag⟩ x.toList
  | expr {x : String} {v g g' : List Char} (hx : IsName x) (hv : IsValue v) (hg : Gap g)
    (hg' : Gap g') :
    OptionText ⟨x, .expr (String.ofList v)⟩ (x.toList ++ (g ++ '=' :: (g' ++ v)))

/-- Options as text with commas between them, up to the closing parenthesis. -/
inductive OptionsText : List Attr → List Char → Prop
  | last {a : Attr} {g w : List Char} (h : OptionText a w) (hg : Gap g) :
    OptionsText [a] (w ++ (g ++ [')']))
  | trailing {a : Attr} {g g' w : List Char} (h : OptionText a w) (hg : Gap g) (hg' : Gap g') :
    OptionsText [a] (w ++ (g ++ ',' :: (g' ++ [')'])))
  | cons {a : Attr} {as : List Attr} {g g' w w' : List Char} (h : OptionText a w) (hg : Gap g)
    (hg' : Gap g') (hs : OptionsText as w') :
    OptionsText (a :: as) (w ++ (g ++ ',' :: (g' ++ w')))

theorem OptionText.finds {a : Attr} {g w post : List Char} {m : Mark} (h : OptionText a w)
    (hm : m = .comma ∨ m = .parenClose) (hg : Gap g)
    (hc : src.Stands (w ++ (g ++ m.char :: post)) c) :
    (attr src).Finds c fun b d ↦ b = a ∧ src.Stands (m.char :: post) d ∧
      d.rest.length < c.rest.length := by
  cases h with
  | flag hx =>
    have hstop := (hg.clear_append (clear_closing hm post)).1
    refine .bind <| hc.finds_ident hx hstop fun d hd hlt ↦ ?_
    have hd : src.Stands (m.char :: post) d := Source.Stands.gap hg hd
    refine .bind <| .optional_none (Refuses.bind <| .token ?_) <| .pure ⟨rfl, hd, hlt⟩
    rw [hd.token?_mark]
    rcases hm with rfl | rfl <;> decide
  | expr hx hv hg₁ hg₂ =>
    rw [List.append_assoc, List.append_assoc, List.cons_append, List.append_assoc] at hc
    have hclear : ∀ z, Clear ('=' :: z) := fun z ↦ ⟨stops_cons.mpr rfl, stops_cons.mpr rfl⟩
    refine .bind <| hc.finds_ident hx (hg₁.clear_append (hclear _)).1 fun d hd hlt ↦ ?_
    refine .bind <| .optional_some <| .bind <|
      Source.Stands.finds_mark (m := .equals) (hd.gap hg₁) fun e he hlt' ↦ ?_
    refine (finds_optionValue hm hv hg (he.gap hg₂)).imp ?_
    rintro _ f ⟨rfl, hf, hlt''⟩
    exact .pure ⟨rfl, hf, by omega⟩

theorem exists_moreAttrs (as : List Attr) (post : List Char) :
    ∃ (m : Mark) (rest : List Char), (m = .comma ∨ m = .parenClose) ∧
      as.flatMap (fun a ↦ ',' :: ' ' :: a.printed) ++ ')' :: post = m.char :: rest := by
  cases as with
  | nil => exact ⟨.parenClose, post, .inr rfl, rfl⟩
  | cons b as => exact ⟨.comma, _, .inl rfl, rfl⟩

theorem refuses_attr (h : src.Stands (')' :: post) c) : (attr src).Refuses c := by
  refine Refuses.bind <| .ident fun x hx ↦ ?_
  rw [Source.Stands.token?_mark (m := .parenClose) h] at hx
  cases hx

/-- After the first option the further ones are found, and then perhaps a comma. -/
theorem OptionsText.finds_items {as : List Attr} {w post : List Char} (h : OptionsText as w)
    (hc : src.Stands (w ++ post) c) :
    (attr src).Finds c fun a d ↦ d.rest.length < c.rest.length ∧ ∀ limit, d.rest.length ≤ limit →
      (upTo (do mark .comma; attr src : Parser Attr) limit).Finds d fun bs e ↦ a :: bs = as ∧
        (optional (mark .comma)).Finds e fun _ f ↦ src.Stands (')' :: post) f ∧
          f.rest.length < c.rest.length := by
  induction h generalizing c with
  | @last a g w h hg =>
    rw [List.append_assoc, List.append_assoc] at hc
    refine (h.finds (.inr rfl) hg hc).imp ?_
    rintro _ d ⟨rfl, hd, hlt⟩
    have hcomma : (mark .comma).Refuses d := by
      refine .token ?_
      rw [Source.Stands.token?_mark (m := .parenClose) hd]
      decide
    exact ⟨hlt, fun limit _ ↦ .upTo_nil hcomma.bind ⟨rfl, .optional_none hcomma ⟨hd, hlt⟩⟩⟩
  | @trailing a g g' w h hg hg' =>
    rw [List.append_assoc, List.append_assoc, List.cons_append, List.append_assoc] at hc
    refine (h.finds (.inl rfl) hg hc).imp ?_
    rintro _ d ⟨rfl, hd, hlt⟩
    have hcomma : (mark .comma).Finds d fun _ e ↦ src.Stands (')' :: post) e ∧
        e.rest.length < d.rest.length :=
      Source.Stands.finds_mark (m := .comma) hd fun e he hlt' ↦ ⟨he.gap hg', hlt'⟩
    refine ⟨hlt, fun limit _ ↦ .upTo_nil ?_ ⟨rfl, .optional_some <| hcomma.imp ?_⟩⟩
    · exact .bind_of_finds <| hcomma.imp fun _ e he ↦ refuses_attr he.1
    · exact fun _ e ⟨he, hlt'⟩ ↦ ⟨he, hlt'.trans hlt⟩
  | @cons a as g g' w w' h hg hg' _ ih =>
    rw [List.append_assoc, List.append_assoc, List.cons_append, List.append_assoc] at hc
    refine (h.finds (.inl rfl) hg hc).imp ?_
    rintro _ d ⟨rfl, hd, hlt⟩
    refine ⟨hlt, fun limit hlimit ↦ .upTo_cons hlimit <| .bind <|
      Source.Stands.finds_mark (m := .comma) hd fun e he hlt' ↦ ?_⟩
    refine (ih (he.gap hg')).imp ?_
    rintro b f ⟨hlt'', hmore⟩
    refine ⟨hlt''.trans hlt', fun limit hlimit ↦ (hmore limit hlimit).imp ?_⟩
    rintro bs k ⟨rfl, hend⟩
    refine ⟨rfl, hend.imp ?_⟩
    rintro _ l ⟨hl, hlast⟩
    exact ⟨hl, by omega⟩

/-- Options in parentheses are read, whatever gaps are in front of their tokens. -/
theorem OptionsText.finds {as : List Attr} {g w post : List Char} (h : OptionsText as w)
    (hg : Gap g) (hc : src.Stands ('(' :: (g ++ (w ++ post))) c) :
    (attrs src).Finds c fun bs d ↦ bs = as ∧ src.Stands post d ∧
      d.rest.length < c.rest.length := by
  refine Source.Stands.finds_between .parenOpen .parenClose post hc fun d hd hlt ↦ ?_
  refine .bind <| .optional_some <| (h.finds_items (hd.gap hg)).imp ?_
  rintro a e ⟨hlt', hmore⟩
  refine .bind <| .many <| (hmore _ (Nat.le_succ _)).imp ?_
  rintro bs f ⟨rfl, hend⟩
  refine .bind <| hend.imp ?_
  rintro _ k ⟨hk, hlt''⟩
  exact .pure ⟨hk, by omega, fun l hl _ ↦ ⟨rfl, hl, by omega⟩⟩

theorem Attr.IsWritten.optionText {a : Attr} (h : a.IsWritten) : OptionText a a.printed := by
  obtain ⟨x, value⟩ := a
  cases value with
  | flag => exact .flag h.name
  | expr text =>
    have htext := OptionText.expr h.name (h.value text rfl) .nil .nil
    rwa [String.ofList_toList] at htext

theorem optionsText_printed {a : Attr} {as : List Attr} (has : ∀ b ∈ a :: as, b.IsWritten) :
    OptionsText (a :: as) (a.printed ++ as.flatMap (fun b ↦ ',' :: ' ' :: b.printed) ++ [')']) := by
  induction as generalizing a with
  | nil =>
    rw [List.flatMap_nil, List.append_nil]
    exact .last (has a (by simp)).optionText .nil
  | cons b as ih =>
    rw [List.forall_mem_cons] at has
    have hmore := OptionsText.cons has.1.optionText .nil (.blank (c := ' ') rfl .nil) (ih has.2)
    simpa using hmore

theorem finds_attrs {a : Attr} {as : List Attr} {post : List Char}
    (has : ∀ b ∈ a :: as, b.IsWritten) (h : src.Stands (printedAttrs (a :: as) ++ post) c) :
    (attrs src).Finds c fun bs d ↦ bs = a :: as ∧ src.Stands post d ∧
      d.rest.length < c.rest.length :=
  (optionsText_printed has).finds .nil h

/-- Options are read up to what is no parenthesis, none from an empty text. -/
theorem finds_optional_attrs {as : List Attr} {post : List Char} (has : ∀ a ∈ as, a.IsWritten)
    (h : src.Stands (printedAttrs as ++ post) c)
    (hpost : src.Stands post c → c.token? ≠ some (.mark .parenOpen)) :
    (optional (attrs src)).Finds c fun bs d ↦ bs.getD [] = as ∧ src.Stands post d ∧
      d.rest.length ≤ c.rest.length := by
  cases as with
  | nil => exact .optional_none (.between (hpost h)) ⟨rfl, h, Nat.le_refl _⟩
  | cons a as =>
    refine .optional_some <| (finds_attrs has h).imp ?_
    rintro _ d ⟨rfl, hd, hlt⟩
    exact ⟨rfl, hd, Nat.le_of_lt hlt⟩

theorem finds_argumentTokens {ts : List Token} {limit : Nat} (hd : c.Passes ts d)
    (hts : ∀ t ∈ ts, t ≠ .mark .parenClose) (hend : d.token? = some (.mark .parenClose))
    (hlimit : c.rest.length ≤ limit) :
    (upTo (passing fun t ↦ t != .mark .parenClose) limit).Finds c fun _ e ↦ e = d := by
  induction ts generalizing c limit with
  | nil =>
    obtain rfl := hd.eq_of_nil
    exact .upTo_nil (.passing (by simp [hend])) rfl
  | cons t ts ih =>
    rw [List.forall_mem_cons] at hts
    obtain ⟨l, rest, hrest, rfl, hnext⟩ := Cursor.Passes.of_cons hd
    refine .upTo_cons hlimit <| .passing hrest (by simpa using hts.1)
      ⟨Cursor.length_next hrest, fun limit hlimit ↦ ?_⟩
    exact (ih hnext hts.2 hlimit).imp fun _ _ h ↦ h

theorem finds_arguments {v post : List Char} (hv : IsArguments v)
    (h : src.Stands ('(' :: (v ++ ')' :: post)) c) :
    (arguments src).Finds c fun text d ↦ text = String.ofList v ∧ src.Stands post d ∧
      d.rest.length < c.rest.length := by
  obtain ⟨ts, hcut, hts⟩ := hv
  obtain ⟨pre, h⟩ := h
  obtain ⟨l, rest, hrest, hl, hnext, hstop⟩ := h.token (x := []) (.mark .parenOpen)
  have hclear : Clear (')' :: post) := ⟨stops_cons.mpr rfl, stops_cons.mpr rfl⟩
  obtain ⟨used, d, rfl, hused, hd, hcaptured⟩ := hnext.cut hcut hclear
  obtain ⟨m, rest', hrest', hm, hmore, -⟩ := hd.token (x := []) (.mark .parenClose)
  have hpasses : (c.next l).Passes (used.map Lexeme.token) d := ⟨used, hused, rfl⟩
  have hend : d.token? = some (.mark .parenClose) := by
    rw [Cursor.token?, hrest', List.head?_cons, Option.map_some, hm]
  have htext : captured src ((c.next l).spanTo d) = String.ofList v := by
    by_cases hne : v = []
    · subst hne
      obtain rfl := List.map_eq_nil_iff.mp (hcut.eq_nil_iff.mpr rfl)
      cases hused
      exact hnext.captured_self hstop hrest'
    · exact hcaptured hne
  have hlt := Cursor.length_next hrest
  have hlt' := Cursor.length_next hrest'
  have hle : d.rest.length ≤ (c.next l).rest.length := by rw [hpasses.length_eq]; omega
  refine .between hrest hl <| .bind <| .spanned <| .many <|
    (finds_argumentTokens hpasses hts hend (Nat.le_succ _)).imp ?_
  rintro _ _ rfl
  exact .pure ⟨m, rest', hrest', hm, htext, ⟨_, hmore⟩, by omega⟩

theorem finds_filterUse {u : FilterUse} {post : List Char} (hu : u.IsWritten src.file)
    (h : src.Stands (u.printed ++ post) c) (hpost : Stops isWordChar post)
    (hparen : ∀ d, src.Stands post d → d.token? ≠ some (.mark .parenOpen)) :
    (filterUse src).Finds c fun w d ↦ w.withoutLine = u.withoutLine ∧ src.Stands post d ∧
      d.rest.length < c.rest.length := by
  have hstop : Stops isWordChar (printedAttrs u.attrs ++ post) := by
    cases u.attrs with
    | nil => exact hpost
    | cons a as => exact stops_cons.mpr rfl
  rw [FilterUse.printed, List.cons_append, List.append_assoc] at h
  refine .bind <| .spanned <| .bind <| Source.Stands.finds_mark (m := .colon) h fun d hd hlt ↦
    .bind <| hd.finds_ident hu.name hstop fun e he hlt' ↦ .bind ?_
  refine (finds_optional_attrs hu.attrs he fun he ↦ hparen e he).imp ?_
  rintro bs f ⟨hbs, hf, hle⟩
  refine .pure <| .pure ⟨?_, hf, by omega⟩
  rw [hbs, FilterUse.withoutLine, FilterUse.withoutLine, Position.withoutLine_eq hu.position]
  rfl

end Templating
