import Templating.Grammar.Template
import Templating.Proofs.Grammar.Results
import Templating.Proofs.Grammar.Standing

/-!
# What is kept of failures

The failure that a parser hands on tells where it stands in one of three ways (`Placed`): it points
at the token ahead and names it, it points at the token behind, which a test has refused, or it
points at a whole include statement. Of two failures at one place the first keeps its span and the
reasons are joined, which does not lead out of the three (`Placed.join`). So a text that cannot be
read ends in a failure of one of them (`placed_of_parse`).
-/

namespace Templating.Grammar

/-! ### Places that are reached -/

namespace Cursor

variable {c d e : Cursor} {l : Lexeme} {rest used more : List Lexeme}

theorem Takes.index_eq (h : c.Takes used d) : d.index = c.index + used.length := by
  induction h with
  | nil => rfl
  | cons _ _ ih =>
    rw [ih, List.length_cons, Nat.add_comm _ 1, ← Nat.add_assoc]
    rfl

theorem Takes.length_eq (h : c.Takes used d) : d.length = c.length := by
  induction h with
  | nil => rfl
  | cons _ _ ih => exact ih

theorem Takes.eq_of_length (hd : c.Takes used d) (he : c.Takes more e)
    (hlength : used.length = more.length) : d = e := by
  induction hd generalizing more with
  | nil =>
    cases he with
    | nil => rfl
    | cons => cases hlength
  | cons hrest _ ih =>
    cases he with
    | nil => cases hlength
    | cons hrest' he =>
      obtain ⟨rfl, -⟩ := List.cons.inj (hrest.symm.trans hrest')
      exact ih he (Nat.succ.inj hlength)

theorem Takes.eq_append {ls : List Lexeme} {size : Nat} (h : (start ls size).Takes used c) :
    ls = used ++ c.rest :=
  h.rest_eq

/-- Some tokens are taken from one place to another. -/
def Reaches (c d : Cursor) : Prop := ∃ used, c.Takes used d

theorem Reaches.refl (c : Cursor) : c.Reaches c := ⟨[], .nil⟩

theorem Reaches.trans (h : c.Reaches d) (hmore : d.Reaches e) : c.Reaches e := by
  obtain ⟨used, h⟩ := h
  obtain ⟨more, hmore⟩ := hmore
  exact ⟨used ++ more, h.append hmore⟩

theorem reaches_next (hrest : c.rest = l :: rest) : c.Reaches (c.next l) := ⟨[l], takes_next hrest⟩

theorem Reaches.eq_of_index (hd : c.Reaches d) (he : c.Reaches e) (hindex : d.index = e.index) :
    d = e := by
  obtain ⟨used, hd⟩ := hd
  obtain ⟨more, he⟩ := he
  rw [hd.index_eq, he.index_eq] at hindex
  exact hd.eq_of_length he (Nat.add_left_cancel hindex)

theorem exists_of_start_reaches {ls : List Lexeme} {size : Nat} (h : (start ls size).Reaches c) :
    ∃ used, ls = used ++ c.rest ∧ c.index = used.length := by
  obtain ⟨used, hused⟩ := h
  exact ⟨used, hused.eq_append, by rw [hused.index_eq, start, Nat.zero_add]⟩

end Cursor

/-! ### Failures and their places -/

/-- A token that a test of the grammar can refuse. -/
def delimits (t : Token) : Bool := t == .mark .comma || t.isBracket

/-- What a failure tells, when the tokens are read from `origin` on. -/
inductive Placed (origin : Cursor) : Failure → Prop
  /-- It points at the token ahead and names it. -/
  | ahead {c : Cursor} {expected : List Expectation} (hc : origin.Reaches c) :
    Placed origin ⟨c.index, c.span, .unexpected c.token? expected⟩
  /-- It stands behind a refused token and points at it; if it names a token, then the one ahead. -/
  | behind {c : Cursor} {l : Lexeme} {rest : List Lexeme} {found : Option Token}
    {expected : List Expectation} (hc : origin.Reaches c) (hrest : c.rest = l :: rest)
    (hl : delimits l.token) (hfound : found = none ∨ found = (c.next l).token?) :
    Placed origin ⟨c.index + 1, l.span, .unexpected found expected⟩
  /-- It points at a statement, and stands where that begins. -/
  | statement {c d : Cursor} {used : List Lexeme} (hc : origin.Reaches c) (hd : c.Takes used d)
    (hne : used ≠ []) : Placed origin ⟨c.index, c.spanTo d, .rawIncludeBody⟩

variable {origin : Cursor} {old new : Failure} {kept : Option Failure}

/-- Failures at one place are joined to one that is placed as the older one is. -/
theorem Placed.join (hold : Placed origin old) (hnew : Placed origin new)
    (hmisfit : new.reason ≠ .rawIncludeBody) (hindex : old.index = new.index) :
    Placed origin { old with reason := old.reason.join new.reason } := by
  -- Both stand behind equally many tokens, so the places they tell of are one, or are one token
  -- apart when one failure points at the token behind and the other at the token ahead.
  cases hold with
  | @ahead c expected hc =>
    have hjoin : ∀ found', found' = none ∨ found' = c.token? → c.token?.or found' = c.token? := by
      rintro _ (rfl | rfl) <;> cases c.token? <;> rfl
    cases hnew with
    | ahead hd =>
      obtain rfl := hc.eq_of_index hd hindex
      rw [Reason.join, hjoin _ (.inr rfl)]
      exact .ahead hc
    | behind hd hrest hl hfound =>
      obtain rfl := hc.eq_of_index (hd.trans (Cursor.reaches_next hrest)) hindex
      rw [Reason.join, hjoin _ hfound]
      exact .ahead hc
    | statement => exact absurd rfl hmisfit
  | @behind c l rest found expected hc hrest hl hfound =>
    have hjoin : ∀ found', found' = none ∨ found' = (c.next l).token? →
        found.or found' = none ∨ found.or found' = (c.next l).token? := by
      rcases hfound with rfl | rfl <;> rintro _ (rfl | rfl) <;> cases (c.next l).token? <;> simp
    cases hnew with
    | ahead hd =>
      obtain rfl := (hc.trans (Cursor.reaches_next hrest)).eq_of_index hd hindex
      exact .behind hc hrest hl (hjoin _ (.inr rfl))
    | behind hd hrest' hl' hfound' =>
      obtain rfl := hc.eq_of_index hd (Nat.succ.inj hindex)
      obtain ⟨rfl, -⟩ := List.cons.inj (hrest.symm.trans hrest')
      exact .behind hc hrest hl (hjoin _ hfound')
    | statement => exact absurd rfl hmisfit
  | statement hc hd hne => exact .statement hc hd hne

theorem placed_keepFurthest (hkept : ∀ f ∈ kept, Placed origin f) (hnew : Placed origin new)
    (hmisfit : new.reason ≠ .rawIncludeBody) : ∀ f ∈ keepFurthest kept new, Placed origin f := by
  unfold keepFurthest
  cases kept with
  | none => rintro _ ⟨⟩; exact hnew
  | some old =>
    have hold := hkept old rfl
    dsimp only
    split
    · rintro _ ⟨⟩; exact hnew
    · split
      · rintro _ ⟨⟩; exact hold
      · rintro _ ⟨⟩; exact hold.join hnew hmisfit (by omega)

/-! ### What parsers hand on -/

namespace Parser

variable {α β : Type} {p : Parser α} {f : α → Parser β} {ps : List (Parser α)} {c : Cursor}
  {S : Failure → Prop}

theorem furthest_bind (p : Parser α) (f : α → Parser β) (c : Cursor) (kept : Option Failure) :
    ((p >>= f) c kept).furthest =
      (p c kept).result.elim (p c kept).furthest fun r ↦
        (f r.1 r.2 (p c kept).furthest).furthest := by
  change (Parser.bind p f c kept).furthest = _
  unfold Parser.bind
  rcases p c kept with ⟨_ | ⟨a, d⟩, kept'⟩ <;> rfl

theorem furthest_firstOf_cons (p : Parser α) (ps : List (Parser α)) (c : Cursor)
    (kept : Option Failure) :
    (firstOf (p :: ps) c kept).furthest =
      (p c kept).result.elim (firstOf ps c (p c kept).furthest).furthest fun _ ↦
        (p c kept).furthest := by
  rw [firstOf]
  dsimp only
  rcases p c kept with ⟨_ | ⟨a, d⟩, kept'⟩ <;> rfl

theorem furthest_optional (p : Parser α) (c : Cursor) (kept : Option Failure) :
    (optional p c kept).furthest = (p c kept).furthest := by
  unfold optional
  rcases p c kept with ⟨_ | ⟨a, d⟩, kept'⟩ <;> rfl

theorem furthest_upTo_succ (p : Parser α) (limit : Nat) (c : Cursor) (kept : Option Failure) :
    (upTo p (limit + 1) c kept).furthest =
      (p c kept).result.elim (p c kept).furthest fun r ↦
        ((upTo p limit >>= fun as ↦ pure (r.1 :: as)) r.2 (p c kept).furthest).furthest := by
  rw [upTo]
  dsimp only
  rcases p c kept with ⟨_ | ⟨a, d⟩, kept'⟩ <;> rfl

/-- At a place the parser hands on a failure with a property, if the one kept before has it. -/
def HandsOn (S : Failure → Prop) (p : Parser α) (c : Cursor) : Prop :=
  ∀ kept, (∀ f ∈ kept, S f) → ∀ f ∈ (p c kept).furthest, S f

theorem HandsOn.pure {a : α} : (Pure.pure a : Parser α).HandsOn S c := fun _ hkept ↦ hkept

theorem HandsOn.bind (hp : p.HandsOn S c) (hf : p.Meets c fun a d ↦ (f a).HandsOn S d) :
    (p >>= f).HandsOn S c := by
  intro kept hkept
  rw [furthest_bind]
  cases hresult : (p c kept).result with
  | none => exact hp kept hkept
  | some r => exact hf kept r.1 r.2 hresult _ (hp kept hkept)

theorem HandsOn.firstOf (h : ∀ p ∈ ps, p.HandsOn S c) : (firstOf ps).HandsOn S c := by
  induction ps with
  | nil => exact fun _ hkept ↦ hkept
  | cons p ps ih =>
    rw [List.forall_mem_cons] at h
    intro kept hkept
    rw [furthest_firstOf_cons]
    cases (p c kept).result with
    | none => exact ih h.2 _ (h.1 kept hkept)
    | some r => exact h.1 kept hkept

theorem HandsOn.optional (h : p.HandsOn S c) : (optional p).HandsOn S c := by
  intro kept hkept
  rw [furthest_optional]
  exact h kept hkept

theorem HandsOn.upTo_succ {limit : Nat} (hp : p.HandsOn S c)
    (hmore : p.Meets c fun _ d ↦ (upTo p limit).HandsOn S d) :
    (upTo p (limit + 1)).HandsOn S c := by
  intro kept hkept
  rw [furthest_upTo_succ]
  cases hresult : (p c kept).result with
  | none => exact hp kept hkept
  | some r =>
    have hrest := hmore kept r.1 r.2 hresult
    exact hrest.bind (fun _ _ _ _ ↦ .pure) _ (hp kept hkept)

/-- Wherever tokens are taken to from `origin`, the parser hands on placed failures, and it stops
where more tokens are taken to. -/
structure Steady (origin : Cursor) (p : Parser α) : Prop where
  handsOn : ∀ {c}, origin.Reaches c → p.HandsOn (Placed origin) c
  advances : ∀ {c}, p.Meets c fun _ d ↦ c.Reaches d

theorem placed_refused (hc : origin.Reaches c) (hkept : ∀ f ∈ kept, Placed origin f)
    (expected : List Expectation) :
    ∀ f ∈ keepFurthest kept ⟨c.index, c.span, .unexpected c.token? expected⟩, Placed origin f :=
  placed_keepFurthest hkept (.ahead hc) nofun

namespace Steady

theorem pure (a : α) : Steady origin (Pure.pure a : Parser α) :=
  ⟨fun _ ↦ .pure, .pure (.refl _)⟩

theorem bind (hp : Steady origin p) (hf : ∀ a, Steady origin (f a)) : Steady origin (p >>= f) where
  handsOn hc := (hp.handsOn hc).bind <| hp.advances.imp fun a _ hd ↦ (hf a).handsOn (hc.trans hd)
  advances := .bind <| hp.advances.imp fun a _ hd ↦ (hf a).advances.imp fun _ _ he ↦ hd.trans he

theorem here : Steady origin Parser.here :=
  ⟨fun _ _ hkept ↦ hkept, .here (.refl _)⟩

theorem token (t : Token) : Steady origin (token t) where
  handsOn hc kept hkept := by
    unfold Parser.token
    split
    · split
      · exact hkept
      · exact placed_refused hc hkept _
    · exact placed_refused hc hkept _
  advances := .token fun _ _ hrest _ ↦ Cursor.reaches_next hrest

theorem select (f : Token → Option α) : Steady origin (select f) where
  handsOn hc kept hkept := by
    unfold Parser.select
    split
    · split
      · exact hkept
      · exact placed_refused hc hkept _
    · exact placed_refused hc hkept _
  advances := .select fun _ _ _ hrest _ ↦ Cursor.reaches_next hrest

theorem passing {test : Token → Bool} (htest : ∀ t, test t = false → delimits t) :
    Steady origin (passing test) where
  handsOn hc kept hkept := by
    unfold Parser.passing
    split
    · next l rest hrest =>
      split
      · exact hkept
      · next hl =>
        exact placed_keepFurthest hkept
          (.behind hc hrest (htest _ (Bool.eq_false_iff.mpr hl)) (.inl rfl)) nofun
    · exact placed_refused hc hkept _
  advances := .passing fun _ _ hrest _ ↦ Cursor.reaches_next hrest

theorem endOfText : Steady origin endOfText where
  handsOn hc kept hkept := by
    unfold Parser.endOfText
    split
    · exact hkept
    · exact placed_refused hc hkept _
  advances := .endOfText fun _ ↦ .refl _

theorem firstOf (h : ∀ p ∈ ps, Steady origin p) : Steady origin (firstOf ps) where
  handsOn hc := .firstOf fun p hp ↦ (h p hp).handsOn hc
  advances := .firstOf fun p hp ↦ (h p hp).advances

theorem optional (h : Steady origin p) : Steady origin (optional p) where
  handsOn hc := (h.handsOn hc).optional
  advances := .optional h.advances fun _ _ ↦ .refl _

theorem upTo (h : Steady origin p) (limit : Nat) : Steady origin (upTo p limit) := by
  induction limit with
  | zero => exact pure []
  | succ limit ih =>
    exact ⟨fun hc ↦ (h.handsOn hc).upTo_succ <| h.advances.imp fun _ _ hd ↦
        ih.handsOn (hc.trans hd),
      .upTo_succ (fun _ _ ↦ .refl _) <| h.advances.imp fun _ _ hd ↦
        ih.advances.imp fun _ _ he ↦ hd.trans he⟩

theorem many (h : Steady origin p) : Steady origin (many p) where
  handsOn hc := (h.upTo _).handsOn hc
  advances := fun kept as d has ↦ (h.upTo _).advances kept as d has

theorem separated {separator : Parser Unit} (h : Steady origin p)
    (hs : Steady origin separator) : Steady origin (separated p separator) := by
  refine h.optional.bind fun a ↦ ?_
  cases a with
  | none => exact pure []
  | some a => exact (hs.bind fun _ ↦ h).many.bind fun _ ↦ hs.optional.bind fun _ ↦ pure _

theorem between (h : Steady origin p) (opening closing : Mark) :
    Steady origin (between opening closing p) :=
  (token _).bind fun _ ↦ h.bind fun _ ↦ (token _).bind fun _ ↦ pure _

theorem spanned (h : Steady origin p) : Steady origin (spanned p) :=
  here.bind fun _ ↦ h.bind fun _ ↦ here.bind fun _ ↦ pure _

/-- What begins with a given token takes one. -/
theorem meets_token_bind {f : Unit → Parser α} (h : Steady origin (f ())) (t : Token) :
    (Parser.token t >>= f).Meets c fun _ d ↦ ∃ used, c.Takes used d ∧ used ≠ [] :=
  .bind <| .token fun l _ hrest _ ↦ h.advances.imp fun _ _ ⟨used, hused⟩ ↦
    ⟨l :: used, .cons hrest hused, nofun⟩

end Steady

end Parser

/-! ### The grammar -/

open Grammar.Parser

variable {src : Source} {body : Parser (List Node)}

theorem steady_bracketed (depth : Nat) : Steady origin (bracketed depth) := by
  induction depth with
  | zero => exact ⟨fun _ _ hkept ↦ hkept, nofun⟩
  | succ depth ih =>
    have hpassing : Steady origin (passing fun t ↦ !t.isBracket) :=
      .passing fun t ht ↦ by simp_all [delimits]
    have hinner : Steady origin (do
        let _ ← many (firstOf [bracketed depth, passing fun t ↦ !t.isBracket])
        pure () : Parser Unit) := by
      refine Steady.bind (.many (.firstOf ?_)) fun _ ↦ .pure ()
      simp only [List.forall_mem_cons]
      exact ⟨ih, hpassing, by simp⟩
    refine .firstOf ?_
    simp only [List.forall_mem_cons]
    exact ⟨hinner.between .., hinner.between .., hinner.between .., by simp⟩

theorem steady_balanced : Steady origin balanced where
  handsOn hc kept hkept := by
    unfold balanced
    exact (steady_bracketed _).handsOn hc kept hkept
  advances kept a d had := by
    unfold balanced at had
    exact (@steady_bracketed origin _).advances kept a d had

theorem steady_valuePart : Steady origin valuePart := by
  refine .firstOf ?_
  simp only [List.forall_mem_cons]
  refine ⟨steady_balanced, .passing fun t ht ↦ ?_, by simp⟩
  rw [Bool.and_eq_false_iff] at ht
  simpa [delimits] using ht

theorem steady_attr : Steady origin (attr src) := by
  have hvalue : Steady origin (optionValue src) :=
    (Steady.spanned (steady_valuePart.bind fun _ ↦ steady_valuePart.many)).bind fun _ ↦ .pure _
  refine (Steady.select _).bind fun _ ↦
    ((Steady.token _).bind fun _ ↦ hvalue).optional.bind fun v ↦ ?_
  cases v <;> exact .pure _

theorem steady_attrs : Steady origin (attrs src) :=
  (steady_attr.separated (.token _)).between ..

theorem steady_arguments : Steady origin (arguments src) := by
  have hpassing : Steady origin (passing fun t ↦ t != .mark .parenClose) := by
    refine .passing fun t ht ↦ ?_
    obtain rfl : t = .mark .parenClose := by simpa using ht
    rfl
  exact (hpassing.many.spanned.bind fun _ ↦ .pure _).between ..

theorem steady_filterUse : Steady origin (filterUse src) :=
  (Steady.spanned <| (Steady.token _).bind fun _ ↦ (Steady.select _).bind fun _ ↦
    steady_attrs.optional.bind fun _ ↦ .pure _).bind fun _ ↦ .pure _

theorem steady_blockMode : Steady origin blockMode := by
  have hword (k : Keyword) (m : Mode) : Steady origin (do keyword k; pure m : Parser Mode) :=
    (Steady.token _).bind fun _ ↦ .pure m
  refine .firstOf ?_
  simp only [List.forall_mem_cons]
  refine ⟨(Steady.token _).bind fun _ ↦ (Steady.firstOf ?_).optional.bind fun _ ↦ .pure _,
    hword .., hword .., by simp⟩
  simp only [List.forall_mem_cons]
  exact ⟨hword .., hword .., hword .., by simp⟩

section

variable (hbody : Steady origin body)
include hbody

/-- The failure of an include of a file that is no template takes the place of the one kept before,
and points at the statement. -/
theorem steady_includeStatement : Steady origin (includeStatement src body) := by
  have hparts : Steady origin (do
      let filters ← many (filterUse src)
      let path ← string
      let nodes ← optional body
      pure (filters, path, nodes)) :=
    steady_filterUse.many.bind fun _ ↦ (Steady.select _).bind fun _ ↦ hbody.optional.bind fun _ ↦
      .pure _
  constructor
  · intro c hc
    have hspanned := ((Steady.token (.keyword .includes)).bind fun _ ↦ hparts).spanned.handsOn hc
    refine (Steady.here.handsOn hc).bind <| .here <| hspanned.bind <| .spanned <|
      (hparts.meets_token_bind _).imp fun ⟨filters, path, nodes⟩ d ⟨used, hused, hne⟩ ↦ ?_
    dsimp only
    split
    · exact .pure
    · cases nodes with
      | none => exact .pure
      | some ns =>
        rintro kept - _ ⟨⟩
        exact .statement hc hused hne
  · intro c
    refine .bind <| .here <| .bind <| .spanned <|
      (hparts.meets_token_bind _).imp fun ⟨filters, path, nodes⟩ d ⟨used, hused, hne⟩ ↦ ?_
    dsimp only
    split
    · exact .pure ⟨used, hused⟩
    · cases nodes with
      | none => exact .pure ⟨used, hused⟩
      | some ns => nofun

theorem steady_blockStatement : Steady origin (blockStatement src body) :=
  (Steady.spanned <| steady_blockMode.bind fun _ ↦ (Steady.select _).bind fun _ ↦
    hbody.bind fun _ ↦ .pure _).bind fun _ ↦ .pure _

theorem steady_mixinDefinition : Steady origin (mixinDefinition src body) :=
  (Steady.spanned <| (Steady.token _).bind fun _ ↦ (Steady.select _).bind fun _ ↦
    steady_arguments.optional.bind fun _ ↦ hbody.bind fun _ ↦ .pure _).bind fun _ ↦ .pure _

theorem steady_mixinCall : Steady origin (mixinCall src body) :=
  (Steady.spanned <| (Steady.token _).bind fun _ ↦ (Steady.select _).bind fun _ ↦
    steady_arguments.optional.bind fun _ ↦ hbody.optional.bind fun _ ↦ .pure _).bind fun _ ↦
    .pure _

theorem steady_filterStatement : Steady origin (filterStatement src body) :=
  (Steady.spanned <| (Steady.token _).bind fun _ ↦ (Steady.select _).bind fun _ ↦
    steady_attrs.optional.bind fun _ ↦ hbody.bind fun _ ↦ .pure _).bind fun _ ↦ .pure _

theorem steady_tagStatement : Steady origin (tagStatement src body) :=
  (Steady.spanned <| (Steady.select _).bind fun _ ↦ (Steady.token _).optional.bind fun _ ↦
    hbody.optional.bind fun _ ↦ .pure _).bind fun _ ↦ .pure _

end

theorem steady_inheritStatement : Steady origin (inheritStatement src) :=
  (Steady.spanned <| (Steady.token _).bind fun _ ↦ .select _).bind fun _ ↦ .pure _

theorem steady_yieldStatement : Steady origin (yieldStatement src) :=
  (Steady.spanned <| .token _).bind fun _ ↦ .pure _

theorem steady_textStatement : Steady origin (textStatement src) :=
  (Steady.spanned <| .select _).bind fun _ ↦ .pure _

theorem steady_statement (depth : Nat) : Steady origin (statement src depth) := by
  induction depth with
  | zero => exact ⟨fun _ _ hkept ↦ hkept, nofun⟩
  | succ depth ih =>
    have hbody := ih.many.between .braceOpen .braceClose
    refine .firstOf ?_
    simp only [List.forall_mem_cons]
    exact ⟨steady_inheritStatement, steady_includeStatement hbody, steady_blockStatement hbody,
      steady_mixinDefinition hbody, steady_mixinCall hbody, steady_filterStatement hbody,
      steady_yieldStatement, steady_textStatement, steady_tagStatement hbody,
      hbody.spanned.bind fun _ ↦ .pure _, by simp⟩

theorem exists_result_many {α : Type} (p : Parser α) (c : Cursor) (kept : Option Failure) :
    ∃ as d, (many p c kept).result = some (as, d) := by
  have hupTo (limit : Nat) : ∀ c kept, ∃ as d, (upTo p limit c kept).result = some (as, d) := by
    induction limit with
    | zero => exact fun c _ ↦ ⟨[], c, rfl⟩
    | succ limit ih =>
      intro c kept
      rw [result_upTo_succ]
      cases (p c kept).result with
      | none => exact ⟨[], c, rfl⟩
      | some r =>
        obtain ⟨as, d, has⟩ := ih r.2 (p c kept).furthest
        exact ⟨r.1 :: as, d, by rw [Option.elim_some, result_bind, has]; rfl⟩
  exact hupTo _ c kept

theorem keepFurthest_ne_none (kept : Option Failure) (new : Failure) :
    keepFurthest kept new ≠ none := by
  unfold keepFurthest
  cases kept with
  | none => exact nofun
  | some old =>
    dsimp only
    split
    · exact nofun
    · split <;> exact nofun

/-- What is left behind the statements of a text is refused, unless nothing is. -/
theorem furthest_document_ne_none {c : Cursor} {kept : Option Failure}
    (h : (document src c kept).result = none) : (document src c kept).furthest ≠ none := by
  obtain ⟨ns, d, hns⟩ := exists_result_many (statement src (c.rest.length + 1)) c kept
  change ((do
    let nodes ← many (statement src (c.rest.length + 1))
    endOfText
    pure (Node.group ⟨nodes, ⟨src.file, 1⟩⟩) : Parser Node) c kept).furthest ≠ none
  change ((do
    let nodes ← many (statement src (c.rest.length + 1))
    endOfText
    pure (Node.group ⟨nodes, ⟨src.file, 1⟩⟩) : Parser Node) c kept).result = none at h
  rw [result_bind, hns, Option.bind_some, result_bind] at h
  rw [furthest_bind, hns, Option.elim_some, furthest_bind]
  unfold endOfText at h ⊢
  cases hrest : d.rest with
  | nil =>
    rw [hrest] at h
    cases h
  | cons l rest => exact keepFurthest_ne_none _ _

theorem parse_eq_error {ls : List Lexeme} {f : Failure} :
    parse ls src = .error f ↔ (document src (.start ls src.size) none).result = none ∧
      (document src (.start ls src.size) none).furthest = some f := by
  have hsome : (document src (.start ls src.size) none).result = none →
      (document src (.start ls src.size) none).furthest ≠ none :=
    furthest_document_ne_none
  unfold parse
  rcases h : document src (.start ls src.size) none with ⟨_ | ⟨n, d⟩, _ | g⟩
  · rw [h] at hsome
    exact absurd rfl (hsome rfl)
  · simp
  · simp
  · simp

/-- A text that makes no document leaves a failure, and it is placed. -/
theorem placed_of_parse {ls : List Lexeme} {f : Failure} (h : parse ls src = .error f) :
    Placed (.start ls src.size) f := by
  have hsteady : Steady (.start ls src.size) (do
      let nodes ← many (statement src (ls.length + 1))
      endOfText
      pure (Node.group ⟨nodes, ⟨src.file, 1⟩⟩) : Parser Node) :=
    (steady_statement _).many.bind fun _ ↦ Steady.endOfText.bind fun _ ↦ .pure _
  exact hsteady.handsOn (.refl _) none nofun f (parse_eq_error.mp h).2

end Templating.Grammar
