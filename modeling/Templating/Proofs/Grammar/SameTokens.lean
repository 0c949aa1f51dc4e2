import Templating.Proofs.Grammar.Parsed
import Templating.Proofs.Grammar.Results
import Templating.Proofs.Node.Layout

/-!
# Texts with the same tokens

Two parsers go on alike if from places with the same tokens ahead they both fail or yield related
values, and stop where the same tokens are ahead (`Parser.Related`). So do the parsers of the
grammar for any two texts: the documents they yield differ in layout only
(`Grammar.related_document`), so texts with the same tokens make the same documents up to layout
(`Source.exists_document_of_tokens`). In particular a text makes a document under every file name if
it does under one (`Source.exists_document_of_file`), and what a parser yields does not depend on
the failures kept.
-/

namespace Templating

namespace Grammar.Parser

variable {α β γ δ : Type}

/-- The same tokens are ahead. -/
def SameTokens (c c' : Cursor) : Prop :=
  c.rest.map Lexeme.token = c'.rest.map Lexeme.token

/-- From places with the same tokens ahead, whatever failures are kept, both parsers fail, or both
yield values related by `R` and stop where the same tokens are ahead. -/
def Related (R : α → β → Prop) (p : Parser α) (q : Parser β) : Prop :=
  ∀ c c' kept kept', SameTokens c c' →
    (p c kept).result = none ∧ (q c' kept').result = none ∨
      ∃ a b d d', R a b ∧ SameTokens d d' ∧ (p c kept).result = some (a, d) ∧
        (q c' kept').result = some (b, d')

variable {R : α → β → Prop} {S : γ → δ → Prop} {p : Parser α} {q : Parser β} {c c' : Cursor}

theorem SameTokens.cases (h : SameTokens c c') :
    c.rest = [] ∧ c'.rest = [] ∨ ∃ l rest l' rest', c.rest = l :: rest ∧ c'.rest = l' :: rest' ∧
      l.token = l'.token ∧ SameTokens (c.next l) (c'.next l') := by
  unfold SameTokens at h
  match hc : c.rest, hc' : c'.rest with
  | [], [] => exact .inl ⟨rfl, rfl⟩
  | l :: rest, l' :: rest' =>
    rw [hc, hc', List.map_cons, List.map_cons, List.cons.injEq] at h
    refine .inr ⟨l, rest, l', rest', rfl, rfl, h.1, ?_⟩
    simpa [SameTokens, Cursor.next, hc, hc'] using h.2
  | [], _ :: _ => simp [hc, hc'] at h
  | _ :: _, [] => simp [hc, hc'] at h

theorem SameTokens.length_eq (h : SameTokens c c') : c'.rest.length = c.rest.length := by
  simpa using (congrArg List.length h).symm

theorem Related.imp {R' : α → β → Prop} (h : Related R p q) (hR : ∀ a b, R a b → R' a b) :
    Related R' p q :=
  fun c c' kept kept' hc ↦ (h c c' kept kept' hc).imp_right fun ⟨a, b, d, d', hr, hd⟩ ↦
    ⟨a, b, d, d', hR a b hr, hd⟩

theorem Related.fail (hp : ∀ c kept, (p c kept).result = none)
    (hq : ∀ c kept, (q c kept).result = none) : Related R p q :=
  fun c c' kept kept' _ ↦ .inl ⟨hp c kept, hq c' kept'⟩

theorem Related.pure {a : α} {b : β} (h : R a b) :
    Related R (Pure.pure a) (Pure.pure b) :=
  fun c c' _ _ hc ↦ .inr ⟨a, b, c, c', h, hc, rfl, rfl⟩

theorem related_here : Related (fun _ _ ↦ True) here here :=
  fun c c' _ _ hc ↦ .inr ⟨c, c', c, c', trivial, hc, rfl, rfl⟩

theorem related_token (t : Token) : Related Eq (token t) (token t) := by
  intro c c' kept kept' hc
  unfold token
  rcases hc.cases with ⟨hr, hr'⟩ | ⟨l, rest, l', rest', hr, hr', hl, hnext⟩ <;> rw [hr, hr']
  · exact .inl ⟨rfl, rfl⟩
  · dsimp only
    rw [hl]
    split
    · exact .inr ⟨(), (), _, _, rfl, hnext, rfl, rfl⟩
    · exact .inl ⟨rfl, rfl⟩

theorem related_select (f : Token → Option α) : Related Eq (select f) (select f) := by
  intro c c' kept kept' hc
  unfold select
  rcases hc.cases with ⟨hr, hr'⟩ | ⟨l, rest, l', rest', hr, hr', hl, hnext⟩ <;> rw [hr, hr']
  · exact .inl ⟨rfl, rfl⟩
  · dsimp only
    rw [hl]
    split
    · exact .inr ⟨_, _, _, _, rfl, hnext, rfl, rfl⟩
    · exact .inl ⟨rfl, rfl⟩

theorem related_passing (test : Token → Bool) : Related Eq (passing test) (passing test) := by
  intro c c' kept kept' hc
  unfold passing
  rcases hc.cases with ⟨hr, hr'⟩ | ⟨l, rest, l', rest', hr, hr', hl, hnext⟩ <;> rw [hr, hr']
  · exact .inl ⟨rfl, rfl⟩
  · dsimp only
    rw [hl]
    split
    · exact .inr ⟨(), (), _, _, rfl, hnext, rfl, rfl⟩
    · exact .inl ⟨rfl, rfl⟩

theorem related_endOfText : Related Eq endOfText endOfText := by
  intro c c' kept kept' hc
  unfold endOfText
  rcases hc.cases with ⟨hr, hr'⟩ | ⟨l, rest, l', rest', hr, hr', -, -⟩ <;> rw [hr, hr']
  · exact .inr ⟨(), (), _, _, rfl, hc, rfl, rfl⟩
  · exact .inl ⟨rfl, rfl⟩

theorem Related.bind {f : α → Parser γ} {g : β → Parser δ} (h : Related R p q)
    (hfg : ∀ a b, R a b → Related S (f a) (g b)) : Related S (p >>= f) (q >>= g) := by
  intro c c' kept kept' hc
  rw [result_bind, result_bind]
  rcases h c c' kept kept' hc with ⟨hp, hq⟩ | ⟨a, b, d, d', hr, hd, hp, hq⟩ <;> rw [hp, hq]
  · exact .inl ⟨rfl, rfl⟩
  · exact hfg a b hr d d' _ _ hd

theorem Related.firstOf {ps : List (Parser α)} {qs : List (Parser β)}
    (h : List.Forall₂ (Related R) ps qs) : Related R (Parser.firstOf ps) (Parser.firstOf qs) := by
  induction h with
  | nil => exact .fail (fun _ _ ↦ rfl) (fun _ _ ↦ rfl)
  | cons h _ ih =>
    intro c c' kept kept' hc
    rw [result_firstOf_cons, result_firstOf_cons]
    rcases h c c' kept kept' hc with ⟨hp, hq⟩ | ⟨a, b, d, d', hr, hd, hp, hq⟩ <;> rw [hp, hq]
    · exact ih c c' _ _ hc
    · exact .inr ⟨a, b, d, d', hr, hd, rfl, rfl⟩

theorem Related.optional (h : Related R p q) :
    Related (Option.Rel R) (Parser.optional p) (Parser.optional q) := by
  intro c c' kept kept' hc
  rw [result_optional, result_optional]
  rcases h c c' kept kept' hc with ⟨hp, hq⟩ | ⟨a, b, d, d', hr, hd, hp, hq⟩ <;> rw [hp, hq]
  · exact .inr ⟨none, none, c, c', .none, hc, rfl, rfl⟩
  · exact .inr ⟨some a, some b, d, d', .some hr, hd, rfl, rfl⟩

theorem Related.upTo (h : Related R p q) (limit : Nat) :
    Related (List.Forall₂ R) (Parser.upTo p limit) (Parser.upTo q limit) := by
  induction limit with
  | zero => exact .pure .nil
  | succ limit ih =>
    intro c c' kept kept' hc
    rw [result_upTo_succ, result_upTo_succ]
    rcases h c c' kept kept' hc with ⟨hp, hq⟩ | ⟨a, b, d, d', hr, hd, hp, hq⟩ <;> rw [hp, hq]
    · exact .inr ⟨[], [], c, c', .nil, hc, rfl, rfl⟩
    · exact ih.bind (fun as bs has ↦ .pure (.cons hr has)) d d' _ _ hd

theorem Related.many (h : Related R p q) :
    Related (List.Forall₂ R) (Parser.many p) (Parser.many q) := by
  intro c c' kept kept' hc
  change _ ∧ (Parser.upTo q (c'.rest.length + 1) c' kept').result = none ∨ ∃ a b d d', _ ∧ _ ∧ _ ∧
    (Parser.upTo q (c'.rest.length + 1) c' kept').result = _
  rw [hc.length_eq]
  exact h.upTo _ c c' kept kept' hc

theorem Related.between (h : Related R p q) (opening closing : Mark) :
    Related R (Parser.between opening closing p) (Parser.between opening closing q) :=
  (related_token _).bind fun _ _ _ ↦ h.bind fun _ _ hr ↦ (related_token _).bind fun _ _ _ ↦ .pure hr

theorem Related.spanned (h : Related R p q) :
    Related (fun x y ↦ R x.1 y.1) (Parser.spanned p) (Parser.spanned q) :=
  related_here.bind fun _ _ _ ↦ h.bind fun _ _ hr ↦ related_here.bind fun _ _ _ ↦ .pure hr

theorem Related.separated (h : Related R p q) {s s' : Parser Unit} (hs : Related Eq s s') :
    Related (List.Forall₂ R) (Parser.separated p s) (Parser.separated q s') := by
  refine h.optional.bind fun a b hab ↦ ?_
  cases hab with
  | none => exact Related.pure List.Forall₂.nil
  | some hr =>
    exact (hs.bind fun _ _ _ ↦ h).many.bind fun _ _ has ↦ hs.optional.bind fun _ _ _ ↦
      .pure (.cons hr has)

end Grammar.Parser

namespace Grammar

open Node Grammar.Parser

/-! ### Options and arguments -/

theorem related_bracketed (depth : Nat) : Related Eq (bracketed depth) (bracketed depth) := by
  induction depth with
  | zero => exact .fail (fun _ _ ↦ rfl) (fun _ _ ↦ rfl)
  | succ depth ih =>
    have hinner := (Related.firstOf <| .cons ih <| .cons (related_passing fun t ↦ !t.isBracket)
      .nil).many.bind (S := Eq) fun _ _ _ ↦ .pure (rfl : () = ())
    exact .firstOf <| .cons (hinner.between _ _) <| .cons (hinner.between _ _) <|
      .cons (hinner.between _ _) .nil

theorem related_balanced : Related Eq balanced balanced := by
  intro c c' kept kept' hc
  unfold balanced
  rw [hc.length_eq]
  exact related_bracketed _ c c' kept kept' hc

theorem related_valuePart : Related Eq valuePart valuePart :=
  .firstOf <| .cons related_balanced <| .cons (related_passing _) .nil

section

variable (src src' : Source)

theorem related_optionValue :
    Related (fun _ _ ↦ True) (optionValue src) (optionValue src') :=
  (Related.spanned (R := fun _ _ ↦ True) <| related_valuePart.bind fun _ _ _ ↦
    related_valuePart.many.imp fun _ _ _ ↦ trivial).bind fun _ _ _ ↦ .pure trivial

theorem related_attr :
    Related (fun a b ↦ a.withoutLayout = b.withoutLayout) (attr src) (attr src') := by
  refine (related_select _).bind ?_
  rintro name _ rfl
  refine (Related.optional <| (related_token _).bind fun _ _ _ ↦
    related_optionValue src src').bind ?_
  rintro _ _ (_ | _) <;> exact .pure rfl

theorem related_attrs :
    Related (fun as bs ↦ as.map Attr.withoutLayout = bs.map Attr.withoutLayout) (attrs src)
      (attrs src') :=
  (((related_attr src src').separated (related_token _)).imp fun _ _ ↦ forall₂_map_eq).between _ _

/-- Options that may be left out. -/
theorem related_options :
    Related (fun x y ↦ (x.getD []).map Attr.withoutLayout = (y.getD []).map Attr.withoutLayout)
      (Parser.optional (attrs src)) (Parser.optional (attrs src')) := by
  refine (related_attrs src src').optional.imp ?_
  rintro _ _ (h | _)
  · exact h
  · rfl

theorem related_arguments :
    Related (fun x y ↦ x.map (fun _ ↦ "") = y.map fun _ ↦ "") (Parser.optional (arguments src))
      (Parser.optional (arguments src')) := by
  have h : Related (fun _ _ ↦ True) (arguments src) (arguments src') :=
    .between (((related_passing _).many.spanned).bind fun _ _ _ ↦ .pure trivial) _ _
  refine h.optional.imp ?_
  rintro _ _ (_ | _) <;> rfl

theorem related_blockMode : Related Eq blockMode blockMode := by
  have hword : ∀ (k : Keyword) (m : Mode),
      Related Eq (do keyword k; pure m) (do keyword k; pure m) :=
    fun k m ↦ (related_token _).bind fun _ _ _ ↦ .pure rfl
  have hmode := (Related.firstOf <| .cons (hword .append .append) <|
    .cons (hword .prepend .prepend) <| .cons (hword .replace .replace) .nil).optional
  refine .firstOf <| .cons ?_ <| .cons (hword _ _) <| .cons (hword _ _) .nil
  refine (related_token _).bind fun _ _ _ ↦ hmode.bind fun a b hab ↦ ?_
  cases hab with
  | none => exact .pure rfl
  | some h => exact .pure h

end

/-! ### Statements -/

section

variable {files : Option Path → Option Path} {src src' : Source}
  {body body' : Parser (List Node)} (hfiles : files src.file = files src'.file)
  (hb : Related (AlikeAll files) body body')

include hfiles

theorem withoutLayout_positionAt (s s' : Span) :
    (positionAt src s).withoutLayout files = (positionAt src' s').withoutLayout files := by
  simp only [positionAt, Position.withoutLayout, hfiles]

theorem withoutLayout_unloaded (path : String) :
    (Reference.unloaded path src.file).withoutLayout files =
      (Reference.unloaded path src'.file).withoutLayout files := by
  simp only [Reference.unloaded, Reference.withoutLayout, hfiles]

theorem related_filterUse :
    Related (fun u v ↦ u.withoutLayout files = v.withoutLayout files) (filterUse src)
      (filterUse src') := by
  refine Related.bind (Related.spanned (R := fun x y ↦ x.1 = y.1 ∧
    x.2.map Attr.withoutLayout = y.2.map Attr.withoutLayout) ?_) ?_
  · exact (related_token _).bind fun _ _ _ ↦ (related_select _).bind fun _ _ hname ↦
      (related_options src src').bind fun _ _ hoptions ↦ .pure ⟨hname, hoptions⟩
  · rintro ⟨⟨name, options⟩, s⟩ ⟨⟨_, options'⟩, s'⟩ ⟨rfl, hoptions⟩
    refine .pure ?_
    dsimp only at hoptions ⊢
    rw [FilterUse.withoutLayout, hoptions, withoutLayout_positionAt hfiles s s']
    rfl

theorem related_inheritStatement :
    Related (Alike files) (inheritStatement src) (inheritStatement src') := by
  refine Related.bind (Related.spanned (R := Eq) ?_) ?_
  · exact (related_token _).bind fun _ _ _ ↦ related_select _
  · rintro ⟨path, s⟩ ⟨_, s'⟩ rfl
    refine .pure ?_
    rw [Alike, withoutLayout, withoutLayout_positionAt hfiles s s', withoutLayout_unloaded hfiles]
    rfl

theorem related_yieldStatement :
    Related (Alike files) (yieldStatement src) (yieldStatement src') := by
  refine (related_token _).spanned.bind fun ⟨_, s⟩ ⟨_, s'⟩ _ ↦ .pure ?_
  rw [Alike, withoutLayout, withoutLayout_positionAt hfiles s s']
  rfl

theorem related_textStatement :
    Related (Alike files) (textStatement src) (textStatement src') := by
  refine (related_select _).spanned.bind ?_
  rintro ⟨value, s⟩ ⟨_, s'⟩ rfl
  refine .pure ?_
  rw [Alike, withoutLayout, withoutLayout_positionAt hfiles s s']
  rfl

theorem withoutLayoutBody_map {x y : Option (List Node)} (h : Option.Rel (AlikeAll files) x y)
    (s s' : Span) :
    withoutLayoutBody files (x.map fun ns ↦ ⟨ns, positionAt src s⟩) =
      withoutLayoutBody files (y.map fun ns ↦ ⟨ns, positionAt src' s'⟩) := by
  cases h with
  | none => rfl
  | some h =>
    rw [Option.map_some, withoutLayoutBody, h, withoutLayout_positionAt hfiles s s']
    rfl

include hb

theorem related_includeStatement :
    Related (Alike files) (includeStatement src body) (includeStatement src' body') := by
  refine related_here.bind fun _ _ _ ↦ ?_
  refine Related.bind (Related.spanned (R := fun x y ↦
    x.1.map (FilterUse.withoutLayout files) = y.1.map (FilterUse.withoutLayout files) ∧
      x.2.1 = y.2.1 ∧ Option.Rel (AlikeAll files) x.2.2 y.2.2) ?_) ?_
  · refine (related_token _).bind fun _ _ _ ↦ ?_
    refine (related_filterUse hfiles).many.bind fun us vs hus ↦ ?_
    exact (related_select _).bind fun _ _ hpath ↦ hb.optional.bind fun _ _ hnodes ↦
      .pure ⟨forall₂_map_eq hus, hpath, hnodes⟩
  · rintro ⟨⟨us, path, nodes⟩, s⟩ ⟨⟨vs, _, nodes'⟩, s'⟩ ⟨hus, rfl, hnodes⟩
    dsimp only at hus hnodes ⊢
    have hempty : us.isEmpty = vs.isEmpty := by
      simpa using congrArg List.isEmpty hus
    rw [hempty]
    split
    · refine .pure ?_
      rw [Alike, withoutLayout, withoutLayoutBody_map hfiles hnodes s s',
        withoutLayout_positionAt hfiles s s', withoutLayout_unloaded hfiles]
      rfl
    · cases hnodes with
      | none =>
        refine .pure ?_
        rw [Alike, withoutLayout, hus, withoutLayout_positionAt hfiles s s',
          withoutLayout_unloaded hfiles]
        rfl
      | some => exact .fail (fun _ _ ↦ rfl) (fun _ _ ↦ rfl)

theorem related_blockStatement :
    Related (Alike files) (blockStatement src body) (blockStatement src' body') := by
  refine Related.bind (Related.spanned (R := fun x y ↦
    x.1 = y.1 ∧ x.2.1 = y.2.1 ∧ AlikeAll files x.2.2 y.2.2) ?_) ?_
  · exact related_blockMode.bind fun _ _ hmode ↦ (related_select _).bind fun _ _ hname ↦
      hb.bind fun _ _ hnodes ↦ .pure ⟨hmode, hname, hnodes⟩
  · rintro ⟨⟨mode, name, ns⟩, s⟩ ⟨⟨_, _, ms⟩, s'⟩ ⟨rfl, rfl, hnodes⟩
    refine .pure ?_
    rw [Alike, withoutLayout, hnodes, BlockHead.withoutLayout, withoutLayout_positionAt hfiles s s']
    rfl

theorem related_mixinDefinition :
    Related (Alike files) (mixinDefinition src body) (mixinDefinition src' body') := by
  refine Related.bind (Related.spanned (R := fun x y ↦ x.1 = y.1 ∧
    x.2.1.map (fun _ ↦ "") = y.2.1.map (fun _ ↦ "") ∧ AlikeAll files x.2.2 y.2.2) ?_) ?_
  · exact (related_token _).bind fun _ _ _ ↦ (related_select _).bind fun _ _ hname ↦
      (related_arguments src src').bind fun _ _ hargs ↦ hb.bind fun _ _ hnodes ↦
      .pure ⟨hname, hargs, hnodes⟩
  · rintro ⟨⟨name, args, ns⟩, s⟩ ⟨⟨_, args', ms⟩, s'⟩ ⟨rfl, hargs, hnodes⟩
    refine .pure ?_
    rw [Alike, withoutLayout, MixinHead.withoutLayout, hargs, withoutLayoutBody, hnodes,
      withoutLayout_positionAt hfiles s s']
    rfl

theorem related_mixinCall :
    Related (Alike files) (mixinCall src body) (mixinCall src' body') := by
  refine Related.bind (Related.spanned (R := fun x y ↦ x.1 = y.1 ∧
    x.2.1.map (fun _ ↦ "") = y.2.1.map (fun _ ↦ "") ∧
      Option.Rel (AlikeAll files) x.2.2 y.2.2) ?_) ?_
  · exact (related_token _).bind fun _ _ _ ↦ (related_select _).bind fun _ _ hname ↦
      (related_arguments src src').bind fun _ _ hargs ↦ hb.optional.bind fun _ _ hnodes ↦
      .pure ⟨hname, hargs, hnodes⟩
  · rintro ⟨⟨name, args, nodes⟩, s⟩ ⟨⟨_, args', nodes'⟩, s'⟩ ⟨rfl, hargs, hnodes⟩
    refine .pure ?_
    rw [Alike, withoutLayout, withoutLayoutBody_map hfiles hnodes s s', MixinHead.withoutLayout,
      hargs, withoutLayout_positionAt hfiles s s']
    rfl

theorem related_filterStatement :
    Related (Alike files) (filterStatement src body) (filterStatement src' body') := by
  refine Related.bind (Related.spanned (R := fun x y ↦ x.1 = y.1 ∧
    x.2.1.map Attr.withoutLayout = y.2.1.map Attr.withoutLayout ∧
      AlikeAll files x.2.2 y.2.2) ?_) ?_
  · exact (related_token _).bind fun _ _ _ ↦ (related_select _).bind fun _ _ hname ↦
      (related_options src src').bind fun _ _ hoptions ↦ hb.bind fun _ _ hnodes ↦
      .pure ⟨hname, hoptions, hnodes⟩
  · rintro ⟨⟨name, options, ns⟩, s⟩ ⟨⟨_, options', ms⟩, s'⟩ ⟨rfl, hoptions, hnodes⟩
    refine .pure ?_
    dsimp only at hoptions ⊢
    rw [Alike, withoutLayout, FilterUse.withoutLayout, hoptions, hnodes,
      withoutLayout_positionAt hfiles s s']
    rfl

theorem related_tagStatement :
    Related (Alike files) (tagStatement src body) (tagStatement src' body') := by
  refine Related.bind (Related.spanned (R := fun x y ↦ x.1 = y.1 ∧
    x.2.1.isSome = y.2.1.isSome ∧ AlikeAll files (x.2.2.getD []) (y.2.2.getD [])) ?_) ?_
  · refine (related_select _).bind fun _ _ hname ↦ (related_token _).optional.bind
      fun _ _ hdot ↦ hb.optional.bind fun _ _ hnodes ↦ .pure ⟨hname, ?_, ?_⟩
    · cases hdot <;> rfl
    · cases hnodes with
      | none => rfl
      | some h => exact h
  · rintro ⟨⟨name, dot, nodes⟩, s⟩ ⟨⟨_, dot', nodes'⟩, s'⟩ ⟨rfl, hdot, hnodes⟩
    refine .pure ?_
    dsimp only at hdot hnodes ⊢
    rw [Alike, withoutLayout, TagHead.withoutLayout, hdot, hnodes,
      withoutLayout_positionAt hfiles s s']
    rfl

theorem related_groupStatement :
    Related (Alike files) (groupStatement src body) (groupStatement src' body') := by
  refine hb.spanned.bind ?_
  rintro ⟨ns, s⟩ ⟨ms, s'⟩ hnodes
  refine .pure ?_
  rw [Alike, withoutLayout, hnodes, withoutLayout_positionAt hfiles s s']
  rfl

end

variable {files : Option Path → Option Path}

theorem related_body {p q : Parser Node} (h : Related (Alike files) p q) :
    Related (AlikeAll files) (between .braceOpen .braceClose (many p))
      (between .braceOpen .braceClose (many q)) :=
  (h.many.imp fun _ _ ↦ AlikeAll.of_forall₂).between .braceOpen .braceClose

variable (files) (src src' : Source)

theorem related_statement (hfiles : files src.file = files src'.file) (depth : Nat) :
    Related (Alike files) (statement src depth) (statement src' depth) := by
  induction depth with
  | zero => exact .fail (fun _ _ ↦ rfl) (fun _ _ ↦ rfl)
  | succ depth ih =>
    have hb := related_body ih
    exact .firstOf <| .cons (related_inheritStatement hfiles) <|
      .cons (related_includeStatement hfiles hb) <| .cons (related_blockStatement hfiles hb) <|
      .cons (related_mixinDefinition hfiles hb) <| .cons (related_mixinCall hfiles hb) <|
      .cons (related_filterStatement hfiles hb) <| .cons (related_yieldStatement hfiles) <|
      .cons (related_textStatement hfiles) <| .cons (related_tagStatement hfiles hb) <|
      .cons (related_groupStatement hfiles hb) .nil

theorem related_document (hfiles : files src.file = files src'.file) :
    Related (Alike files) (document src) (document src') := by
  intro c c' kept kept' hc
  unfold document
  rw [hc.length_eq]
  refine Related.bind (related_statement files src src' hfiles (c.rest.length + 1)).many
    (fun ns ms h ↦ ?_) c c' kept kept' hc
  refine related_endOfText.bind fun _ _ _ ↦ .pure ?_
  rw [Alike, withoutLayout, AlikeAll.of_forall₂ h, Position.withoutLayout, hfiles]
  rfl

end Grammar

/-- Where one text makes a document, a text with the same tokens makes one that differs in layout
only. -/
theorem Source.exists_document_of_tokens (files : Option Path → Option Path) {src src' : Source}
    {ls ls' : List Lexeme} {n : Node} (hfiles : files src.file = files src'.file)
    (hls : Lexer.lexemes src.text = .ok ls) (hls' : Lexer.lexemes src'.text = .ok ls')
    (htokens : ls.map Lexeme.token = ls'.map Lexeme.token) (h : src.document = .ok n) :
    ∃ m, src'.document = .ok m ∧ n.Alike files m := by
  obtain ⟨_, hls₀, hparse⟩ := document_eq_ok.mp h
  cases hls.symm.trans hls₀
  obtain ⟨d, hn⟩ := Grammar.parse_eq_ok.mp hparse
  rcases Grammar.related_document files src src' hfiles (.start ls src.size)
    (.start ls' src'.size) none none htokens with
    ⟨hnone, -⟩ | ⟨n', m, _, d', halike, -, hn', hm⟩
  · cases hn.symm.trans hnone
  · cases hn.symm.trans hn'
    exact ⟨m, document_eq_ok.mpr ⟨ls', hls', Grammar.parse_eq_ok.mpr ⟨d', hm⟩⟩, halike⟩

/-- A text that makes a document makes one under every file name, with the same references. -/
theorem Source.exists_document_of_file {text : String} {f : Option Path} {n : Node}
    (h : Source.document ⟨text, f⟩ = .ok n) (g : Option Path) :
    ∃ m, Source.document ⟨text, g⟩ = .ok m ∧ n.SameReferences m := by
  obtain ⟨ls, hls, -⟩ := document_eq_ok.mp h
  obtain ⟨m, hm, halike⟩ : ∃ m, Source.document ⟨text, g⟩ = .ok m ∧ n.Alike (fun _ ↦ none) m :=
    exists_document_of_tokens _ rfl hls hls rfl h
  exact ⟨m, hm, halike.sameReferences⟩

end Templating
