import Templating.Grammar.Parser

/-!
# What parsers yield

The results of combined parsers, and three ways to speak of a parser at a place: it can yield only
what has a property (`Parser.Meets`), it yields something that has a property whatever failure is
kept (`Parser.Finds`), or it yields nothing (`Parser.Refuses`).
-/

namespace Templating.Grammar.Parser

variable {α β : Type} {p : Parser α} {f : α → Parser β} {ps : List (Parser α)} {c d : Cursor}
  {kept : Option Failure} {l : Lexeme} {rest : List Lexeme} {t : Token}

/-! ### Results -/

theorem result_bind (p : Parser α) (f : α → Parser β) (c : Cursor) (kept : Option Failure) :
    ((p >>= f) c kept).result =
      (p c kept).result.bind fun r ↦ (f r.1 r.2 (p c kept).furthest).result := by
  change (Parser.bind p f c kept).result = _
  unfold Parser.bind
  rcases p c kept with ⟨_ | ⟨a, d⟩, kept'⟩ <;> rfl

theorem result_firstOf_cons (p : Parser α) (ps : List (Parser α)) (c : Cursor)
    (kept : Option Failure) :
    (firstOf (p :: ps) c kept).result =
      (p c kept).result.or (firstOf ps c (p c kept).furthest).result := by
  rw [firstOf]
  dsimp only
  rcases p c kept with ⟨_ | ⟨a, d⟩, kept'⟩ <;> rfl

theorem result_optional (p : Parser α) (c : Cursor) (kept : Option Failure) :
    (optional p c kept).result =
      some ((p c kept).result.elim (none, c) fun r ↦ (some r.1, r.2)) := by
  unfold optional
  rcases p c kept with ⟨_ | ⟨a, d⟩, kept'⟩ <;> rfl

theorem result_upTo_succ (p : Parser α) (limit : Nat) (c : Cursor) (kept : Option Failure) :
    (upTo p (limit + 1) c kept).result =
      (p c kept).result.elim (some ([], c)) fun r ↦
        ((upTo p limit >>= fun as ↦ pure (r.1 :: as)) r.2 (p c kept).furthest).result := by
  rw [upTo]
  dsimp only
  rcases p c kept with ⟨_ | ⟨a, d⟩, kept'⟩ <;> rfl

/-! ### What can be yielded -/

/-- Whatever the parser yields at a place has a property. -/
def Meets (p : Parser α) (c : Cursor) (Q : α → Cursor → Prop) : Prop :=
  ∀ kept a d, (p c kept).result = some (a, d) → Q a d

variable {Q Q' : α → Cursor → Prop} {R : β → Cursor → Prop} {R' : Unit → Cursor → Prop}

theorem Meets.imp (h : p.Meets c Q) (hQ : ∀ a d, Q a d → Q' a d) : p.Meets c Q' :=
  fun kept a d had ↦ hQ a d (h kept a d had)

/-- What can be yielded is asked only where something is. -/
theorem Meets.of_not_refuses (h : (¬ ∀ kept, (p c kept).result = none) → p.Meets c Q) :
    p.Meets c Q :=
  fun kept a d had ↦ h (fun hnone ↦ by rw [hnone] at had; cases had) kept a d had

theorem Meets.pure {a : α} (h : Q a c) : (Pure.pure a : Parser α).Meets c Q := by
  intro kept b d hbd
  cases hbd
  exact h

theorem Meets.bind (h : p.Meets c fun a d ↦ (f a).Meets d R) : (p >>= f).Meets c R := by
  intro kept b e hbe
  rw [result_bind, Option.bind_eq_some_iff] at hbe
  obtain ⟨⟨a, d⟩, had, hbe⟩ := hbe
  exact h kept a d had _ b e hbe

theorem Meets.firstOf (h : ∀ p ∈ ps, p.Meets c Q) : (firstOf ps).Meets c Q := by
  induction ps with
  | nil =>
    intro kept a d had
    cases had
  | cons p ps ih =>
    rw [List.forall_mem_cons] at h
    intro kept a d had
    rw [result_firstOf_cons, Option.or_eq_some_iff] at had
    rcases had with had | ⟨-, had⟩
    · exact h.1 kept a d had
    · exact ih h.2 _ a d had

theorem Meets.optional {Q : Option α → Cursor → Prop} (hsome : p.Meets c fun a d ↦ Q (some a) d)
    (hnone : ∀ kept, (p c kept).result = none → Q none c) : (optional p).Meets c Q := by
  intro kept b d hbd
  rw [result_optional, Option.some_inj] at hbd
  cases h : (p c kept).result with
  | none =>
    rw [h] at hbd
    cases hbd
    exact hnone kept h
  | some r =>
    rw [h] at hbd
    cases hbd
    exact hsome kept r.1 r.2 h

theorem Meets.upTo_zero {Q : List α → Cursor → Prop} (h : Q [] c) : (upTo p 0).Meets c Q :=
  Meets.pure h

theorem Meets.upTo_succ {Q : List α → Cursor → Prop} {limit : Nat}
    (hnil : ∀ kept, (p c kept).result = none → Q [] c)
    (hcons : p.Meets c fun a d ↦ (upTo p limit).Meets d fun as e ↦ Q (a :: as) e) :
    (upTo p (limit + 1)).Meets c Q := by
  intro kept as e has
  rw [result_upTo_succ] at has
  cases h : (p c kept).result with
  | none =>
    rw [h] at has
    cases has
    exact hnil kept h
  | some r =>
    rw [h] at has
    have hrest : (upTo p limit).Meets r.2 fun as e ↦
        (Pure.pure (r.1 :: as) : Parser (List α)).Meets e Q :=
      (hcons kept r.1 r.2 h).imp fun _ _ hQ ↦ .pure hQ
    exact hrest.bind _ as e has

/-- What holds of each value holds of all values, if some invariant of the place is kept. -/
theorem Meets.upTo_forall {I : Cursor → Prop} {P : α → Prop} (limit : Nat)
    (h : ∀ c, I c → p.Meets c fun a d ↦ P a ∧ I d) (hc : I c) :
    (upTo p limit).Meets c fun as d ↦ (∀ a ∈ as, P a) ∧ I d := by
  induction limit generalizing c with
  | zero => exact .upTo_zero ⟨by simp, hc⟩
  | succ limit ih =>
    refine .upTo_succ (fun _ _ ↦ ⟨by simp, hc⟩) <| (h c hc).imp fun a d ⟨ha, hd⟩ ↦ ?_
    exact (ih hd).imp fun as e ⟨has, he⟩ ↦ ⟨List.forall_mem_cons.mpr ⟨ha, has⟩, he⟩

theorem Meets.many_forall {I : Cursor → Prop} {P : α → Prop}
    (h : ∀ c, I c → p.Meets c fun a d ↦ P a ∧ I d) (hc : I c) :
    (many p).Meets c fun as d ↦ (∀ a ∈ as, P a) ∧ I d :=
  fun kept as d has ↦ Meets.upTo_forall _ h hc kept as d has

theorem Meets.separated_forall {I : Cursor → Prop} {P : α → Prop} {separator : Parser Unit}
    (h : ∀ c, I c → p.Meets c fun a d ↦ P a ∧ I d)
    (hs : ∀ c, I c → separator.Meets c fun _ d ↦ I d) (hc : I c) :
    (separated p separator).Meets c fun as d ↦ (∀ a ∈ as, P a) ∧ I d := by
  refine .bind <| .optional ((h c hc).imp fun a d ⟨ha, hd⟩ ↦ ?_) fun _ _ ↦ .pure ⟨by simp, hc⟩
  have hpair : ∀ c, I c → (do separator; p : Parser α).Meets c fun a d ↦ P a ∧ I d :=
    fun c hc ↦ .bind <| (hs c hc).imp fun _ d hd ↦ h d hd
  refine .bind <| (Meets.many_forall hpair hd).imp fun as e ⟨has, he⟩ ↦ ?_
  have hall : ∀ b ∈ a :: as, P b := List.forall_mem_cons.mpr ⟨ha, has⟩
  exact .bind <| .optional ((hs e he).imp fun _ _ hi ↦ .pure ⟨hall, hi⟩) fun _ _ ↦
    .pure ⟨hall, he⟩

theorem Meets.here {Q : Cursor → Cursor → Prop} (h : Q c c) : Parser.here.Meets c Q := by
  intro kept a d had
  cases had
  exact h

theorem Meets.token (h : ∀ l rest, c.rest = l :: rest → l.token = t → R' () (c.next l)) :
    (token t).Meets c R' := by
  intro kept a d had
  unfold Parser.token at had
  split at had
  · next l rest hrest =>
    split at had
    · next ht =>
      cases had
      exact h l rest hrest ht
    · cases had
  · cases had

theorem Meets.select {f : Token → Option α}
    (h : ∀ l rest a, c.rest = l :: rest → f l.token = some a → Q a (c.next l)) :
    (select f).Meets c Q := by
  intro kept a d had
  unfold Parser.select at had
  split at had
  · next l rest hrest =>
    split at had
    · next b hb =>
      cases had
      exact h l rest _ hrest hb
    · cases had
  · cases had

theorem Meets.ident {Q : String → Cursor → Prop}
    (h : ∀ l rest s, c.rest = l :: rest → l.token = .ident s → Q s (c.next l)) :
    ident.Meets c Q := by
  refine .select fun l rest s hrest hs ↦ h l rest s hrest ?_
  split at hs
  · next hident => rw [hident, Option.some.inj hs]
  · cases hs

theorem Meets.string {Q : String → Cursor → Prop}
    (h : ∀ l rest s, c.rest = l :: rest → l.token = .string s → Q s (c.next l)) :
    string.Meets c Q := by
  refine .select fun l rest s hrest hs ↦ h l rest s hrest ?_
  split at hs
  · next hstring => rw [hstring, Option.some.inj hs]
  · cases hs

theorem Meets.passing {test : Token → Bool}
    (h : ∀ l rest, c.rest = l :: rest → test l.token → R' () (c.next l)) :
    (passing test).Meets c R' := by
  intro kept a d had
  unfold Parser.passing at had
  split at had
  · next l rest hrest =>
    split at had
    · next ht =>
      cases had
      exact h l rest hrest ht
    · cases had
  · cases had

theorem Meets.endOfText (h : c.rest = [] → R' () c) : Parser.endOfText.Meets c R' := by
  intro kept a d had
  unfold Parser.endOfText at had
  split at had
  · next hrest =>
    cases had
    exact h hrest
  · cases had

theorem Meets.spanned {Q : α × Span → Cursor → Prop}
    (h : p.Meets c fun a d ↦ Q (a, c.spanTo d) d) : (spanned p).Meets c Q :=
  .bind <| .here <| .bind <| h.imp fun _ _ hQ ↦ .bind <| .here <| .pure hQ

theorem Meets.between {opening closing : Mark}
    (h : ∀ l rest, c.rest = l :: rest → l.token = .mark opening →
      p.Meets (c.next l) fun a d ↦
        ∀ m rest, d.rest = m :: rest → m.token = .mark closing → Q a (d.next m)) :
    (between opening closing p).Meets c Q :=
  .bind <| .token fun l rest hrest hl ↦ .bind <| (h l rest hrest hl).imp fun _ _ hQ ↦
    .bind <| .token fun m rest hrest hm ↦ .pure (hQ m rest hrest hm)

/-! ### What is yielded -/

/-- Whatever failure is kept, the parser yields something at a place, and it has a property. -/
def Finds (p : Parser α) (c : Cursor) (Q : α → Cursor → Prop) : Prop :=
  ∃ a d, (∀ kept, (p c kept).result = some (a, d)) ∧ Q a d

/-- Whatever failure is kept, the parser yields nothing at a place. -/
def Refuses (p : Parser α) (c : Cursor) : Prop := ∀ kept, (p c kept).result = none

theorem Finds.imp (h : p.Finds c Q) (hQ : ∀ a d, Q a d → Q' a d) : p.Finds c Q' := by
  obtain ⟨a, d, had, hQad⟩ := h
  exact ⟨a, d, had, hQ a d hQad⟩

theorem Finds.pure {a : α} (h : Q a c) : (Pure.pure a : Parser α).Finds c Q :=
  ⟨a, c, fun _ ↦ rfl, h⟩

theorem Finds.bind (h : p.Finds c fun a d ↦ (f a).Finds d R) : (p >>= f).Finds c R := by
  obtain ⟨a, d, had, b, e, hbe, hR⟩ := h
  refine ⟨b, e, fun kept ↦ ?_, hR⟩
  rw [result_bind, had]
  exact hbe _

theorem Finds.firstOf_head (h : p.Finds c Q) : (firstOf (p :: ps)).Finds c Q := by
  obtain ⟨a, d, had, hQ⟩ := h
  refine ⟨a, d, fun kept ↦ ?_, hQ⟩
  rw [result_firstOf_cons, had]
  rfl

theorem Finds.firstOf_tail (hp : p.Refuses c) (h : (firstOf ps).Finds c Q) :
    (firstOf (p :: ps)).Finds c Q := by
  obtain ⟨a, d, had, hQ⟩ := h
  refine ⟨a, d, fun kept ↦ ?_, hQ⟩
  rw [result_firstOf_cons, hp, had]
  rfl

theorem Finds.optional_some {Q : Option α → Cursor → Prop}
    (h : p.Finds c fun a d ↦ Q (some a) d) : (optional p).Finds c Q := by
  obtain ⟨a, d, had, hQ⟩ := h
  refine ⟨some a, d, fun kept ↦ ?_, hQ⟩
  rw [result_optional, had]
  rfl

theorem Finds.optional_none {Q : Option α → Cursor → Prop} (h : p.Refuses c) (hQ : Q none c) :
    (optional p).Finds c Q := by
  refine ⟨none, c, fun kept ↦ ?_, hQ⟩
  rw [result_optional, h]
  rfl

theorem Finds.upTo_nil {Q : List α → Cursor → Prop} {limit : Nat} (h : p.Refuses c)
    (hQ : Q [] c) : (upTo p limit).Finds c Q := by
  cases limit with
  | zero => exact .pure hQ
  | succ limit =>
    refine ⟨[], c, fun kept ↦ ?_, hQ⟩
    rw [result_upTo_succ, h]
    rfl

/-- A value takes a token, so the tokens ahead are enough for one. -/
theorem Finds.upTo_cons {Q : List α → Cursor → Prop} {limit : Nat} (hlimit : c.rest.length ≤ limit)
    (h : p.Finds c fun a d ↦ d.rest.length < c.rest.length ∧
      ∀ limit, d.rest.length ≤ limit → (upTo p limit).Finds d fun as e ↦ Q (a :: as) e) :
    (upTo p limit).Finds c Q := by
  obtain ⟨a, d, had, hlt, hrest⟩ := h
  obtain ⟨limit, rfl⟩ : ∃ n, limit = n + 1 := ⟨limit - 1, by omega⟩
  obtain ⟨as, e, has, hQ⟩ := hrest limit (by omega)
  refine ⟨a :: as, e, fun kept ↦ ?_, hQ⟩
  rw [result_upTo_succ, had, Option.elim_some, result_bind, has]
  rfl

theorem Finds.many {Q : List α → Cursor → Prop}
    (h : (upTo p (c.rest.length + 1)).Finds c Q) : (many p).Finds c Q :=
  h

theorem Finds.here {Q : Cursor → Cursor → Prop} (h : Q c c) : Parser.here.Finds c Q :=
  ⟨c, c, fun _ ↦ rfl, h⟩

theorem Finds.token (hrest : c.rest = l :: rest) (hl : l.token = t) (h : R' () (c.next l)) :
    (token t).Finds c R' := by
  refine ⟨(), c.next l, fun kept ↦ ?_, h⟩
  unfold Parser.token
  rw [hrest]
  exact congrArg Reply.result (if_pos hl)

theorem Finds.select {f : Token → Option α} {a : α} (hrest : c.rest = l :: rest)
    (hl : f l.token = some a) (h : Q a (c.next l)) : (select f).Finds c Q := by
  refine ⟨a, c.next l, fun kept ↦ ?_, h⟩
  unfold Parser.select
  rw [hrest]
  dsimp only
  rw [hl]

theorem Finds.ident {Q : String → Cursor → Prop} {s : String} (hrest : c.rest = l :: rest)
    (hl : l.token = .ident s) (h : Q s (c.next l)) : Parser.ident.Finds c Q :=
  .select hrest (by rw [hl]) h

theorem Finds.string {Q : String → Cursor → Prop} {s : String} (hrest : c.rest = l :: rest)
    (hl : l.token = .string s) (h : Q s (c.next l)) : Parser.string.Finds c Q :=
  .select hrest (by rw [hl]) h

theorem Finds.passing {test : Token → Bool} (hrest : c.rest = l :: rest) (hl : test l.token)
    (h : R' () (c.next l)) : (passing test).Finds c R' := by
  refine ⟨(), c.next l, fun kept ↦ ?_, h⟩
  unfold Parser.passing
  rw [hrest]
  exact congrArg Reply.result (if_pos hl)

theorem Finds.endOfText (hrest : c.rest = []) (h : R' () c) : Parser.endOfText.Finds c R' := by
  refine ⟨(), c, fun kept ↦ ?_, h⟩
  unfold Parser.endOfText
  rw [hrest]

theorem Finds.spanned {Q : α × Span → Cursor → Prop}
    (h : p.Finds c fun a d ↦ Q (a, c.spanTo d) d) : (spanned p).Finds c Q :=
  .bind <| .here <| .bind <| h.imp fun _ _ hQ ↦ .bind <| .here <| .pure hQ

theorem Finds.between {opening closing : Mark} (hrest : c.rest = l :: rest)
    (hl : l.token = .mark opening) (h : p.Finds (c.next l) fun a d ↦
      ∃ m rest, d.rest = m :: rest ∧ m.token = .mark closing ∧ Q a (d.next m)) :
    (between opening closing p).Finds c Q :=
  .bind <| .token hrest hl <| .bind <| h.imp fun _ _ ⟨_, _, hrest, hm, hQ⟩ ↦
    .bind <| .token hrest hm <| .pure hQ

/-! ### Where nothing is yielded -/

theorem Refuses.bind (h : p.Refuses c) : (p >>= f).Refuses c := by
  intro kept
  rw [result_bind, h]
  rfl

theorem Refuses.firstOf (h : ∀ p ∈ ps, p.Refuses c) : (firstOf ps).Refuses c := by
  induction ps with
  | nil => exact fun _ ↦ rfl
  | cons p ps ih =>
    rw [List.forall_mem_cons] at h
    intro kept
    rw [result_firstOf_cons, h.1, ih h.2]
    rfl

theorem Refuses.bind_of_finds (h : p.Finds c fun a d ↦ (f a).Refuses d) :
    (p >>= f).Refuses c := by
  obtain ⟨a, d, had, hrefuses⟩ := h
  intro kept
  rw [result_bind, had]
  exact hrefuses _

theorem Refuses.spanned (h : p.Refuses c) : (spanned p).Refuses c :=
  .bind_of_finds <| .here h.bind

theorem Refuses.token (h : c.token? ≠ some t) : (token t).Refuses c := by
  intro kept
  unfold Parser.token
  split
  · next l rest hrest =>
    rw [if_neg fun hl ↦ h (by rw [Cursor.token?, hrest, List.head?_cons, Option.map_some, hl])]
    rfl
  · rfl

theorem Refuses.select {f : Token → Option α} (h : ∀ t ∈ c.token?, f t = none) :
    (select f).Refuses c := by
  intro kept
  unfold Parser.select
  split
  · next l rest hrest =>
    rw [h l.token (by rw [Cursor.token?, hrest]; rfl)]
    rfl
  · rfl

theorem Refuses.ident (h : ∀ s, c.token? ≠ some (.ident s)) : ident.Refuses c := by
  refine .select fun t ht ↦ ?_
  split
  · exact absurd ht (h _)
  · rfl

theorem Refuses.string (h : ∀ s, c.token? ≠ some (.string s)) : string.Refuses c := by
  refine .select fun t ht ↦ ?_
  split
  · exact absurd ht (h _)
  · rfl

theorem Refuses.passing {test : Token → Bool} (h : ∀ t ∈ c.token?, test t = false) :
    (passing test).Refuses c := by
  intro kept
  unfold Parser.passing
  split
  · next l rest hrest =>
    rw [if_neg (by rw [h l.token (by rw [Cursor.token?, hrest]; rfl)]; decide)]
  · rfl

theorem Refuses.between {opening closing : Mark} (h : c.token? ≠ some (.mark opening)) :
    (between opening closing p).Refuses c :=
  (Refuses.token h).bind

end Templating.Grammar.Parser
