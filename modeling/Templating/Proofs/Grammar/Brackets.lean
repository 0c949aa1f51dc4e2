import Templating.Proofs.Grammar.Results
import Templating.Proofs.Grammar.Standing

/-!
# Balanced brackets

The tokens that make an option value: those in balanced brackets, and outside of them all but a
comma (`Grammar.Balanced`). The parsers of values take no others (`Grammar.meets_optionTokens`), and
they take all of them when nothing behind them goes on with the value
(`Grammar.finds_optionTokens`).
-/

namespace Templating.Grammar

open Grammar.Parser

/-- Brackets of one shape. -/
inductive Pair : Mark → Mark → Prop
  | paren : Pair .parenOpen .parenClose
  | bracket : Pair .bracketOpen .bracketClose
  | brace : Pair .braceOpen .braceClose

/-- Tokens in balanced brackets; outside of all brackets only such as are free there. -/
inductive Balanced : (Token → Bool) → List Token → Prop
  | nil {free : Token → Bool} : Balanced free []
  | token {free : Token → Bool} {t : Token} {ts : List Token} (ht : free t)
    (hbracket : t.isBracket = false) (h : Balanced free ts) : Balanced free (t :: ts)
  | bracket {free : Token → Bool} {opening closing : Mark} {inner ts : List Token}
    (hpair : Pair opening closing) (hinner : Balanced (fun _ ↦ true) inner)
    (h : Balanced free ts) : Balanced free (.mark opening :: (inner ++ .mark closing :: ts))

/-- Tokens in one pair of brackets. -/
def Bracketed (ts : List Token) : Prop :=
  ∃ opening closing inner, Pair opening closing ∧ Balanced (fun _ ↦ true) inner ∧
    ts = .mark opening :: (inner ++ [.mark closing])

/-- Tokens in one pair of brackets, or one free token. -/
def Part (free : Token → Bool) (ts : List Token) : Prop :=
  Bracketed ts ∨ ∃ t, ts = [t] ∧ free t ∧ t.isBracket = false

variable {free test : Token → Bool} {ts us : List Token} {c d : Cursor} {b : Parser Unit}

theorem Balanced.append (h : Balanced free ts) (hus : Balanced free us) :
    Balanced free (ts ++ us) := by
  induction h with
  | nil => exact hus
  | token ht hbracket _ ih => exact .token ht hbracket (ih hus)
  | bracket hpair hinner _ _ ih =>
    rw [List.cons_append, List.append_assoc, List.cons_append]
    exact .bracket hpair hinner (ih hus)

theorem Balanced.imp {free' : Token → Bool} (h : Balanced free ts)
    (hfree : ∀ t, free t → free' t) : Balanced free' ts := by
  induction h with
  | nil => exact .nil
  | token ht hbracket _ ih => exact .token (hfree _ ht) hbracket (ih hfree)
  | bracket hpair hinner _ _ ih => exact .bracket hpair hinner (ih hfree)

theorem Part.append (h : Part free ts) (hus : Balanced free us) : Balanced free (ts ++ us) := by
  rcases h with ⟨o, cl, inner, hpair, hinner, rfl⟩ | ⟨t, rfl, ht, hbracket⟩
  · rw [List.cons_append, List.append_assoc]
    exact .bracket hpair hinner hus
  · exact .token ht hbracket hus

theorem Part.ne_nil (h : Part free ts) : ts ≠ [] := by
  rcases h with ⟨o, cl, inner, -, -, rfl⟩ | ⟨t, rfl, -⟩ <;> simp

theorem Balanced.exists_part (h : Balanced free ts) (hne : ts ≠ []) :
    ∃ us vs, ts = us ++ vs ∧ Part free us ∧ Balanced free vs := by
  cases h with
  | nil => exact absurd rfl hne
  | @token _ t vs ht hbracket h => exact ⟨[t], vs, rfl, .inr ⟨t, rfl, ht, hbracket⟩, h⟩
  | @bracket _ o cl inner vs hpair hinner h =>
    have hbracketed : Bracketed (.mark o :: (inner ++ [.mark cl])) :=
      ⟨o, cl, inner, hpair, hinner, rfl⟩
    exact ⟨_, vs, by simp, .inl hbracketed, h⟩

/-! ### Only balanced tokens are taken -/

theorem meets_part (hb : ∀ c, b.Meets c fun _ d ↦ ∃ ts, c.Passes ts d ∧ Bracketed ts)
    (htest : ∀ t, test t = (free t && !t.isBracket)) :
    (firstOf [b, passing test]).Meets c fun _ d ↦ ∃ ts, c.Passes ts d ∧ Part free ts := by
  refine .firstOf ?_
  rw [List.forall_mem_cons, List.forall_mem_singleton]
  refine ⟨(hb c).imp fun _ d ⟨ts, hts, h⟩ ↦ ⟨ts, hts, .inl h⟩, .passing fun l rest hrest hl ↦ ?_⟩
  rw [htest, Bool.and_eq_true, Bool.not_eq_true'] at hl
  exact ⟨[l.token], Cursor.passes_next hrest, .inr ⟨l.token, rfl, hl⟩⟩

theorem meets_parts (hb : ∀ c, b.Meets c fun _ d ↦ ∃ ts, c.Passes ts d ∧ Bracketed ts)
    (htest : ∀ t, test t = (free t && !t.isBracket)) (limit : Nat) :
    (upTo (firstOf [b, passing test]) limit).Meets c fun _ d ↦
      ∃ ts, c.Passes ts d ∧ Balanced free ts := by
  induction limit generalizing c with
  | zero => exact .upTo_zero ⟨[], Cursor.passes_nil, .nil⟩
  | succ limit ih =>
    refine .upTo_succ (fun _ _ ↦ ⟨[], Cursor.passes_nil, .nil⟩) ?_
    refine (meets_part hb htest).imp fun _ d ⟨ts, hts, h⟩ ↦ ih.imp fun _ e ⟨us, hus, hmore⟩ ↦ ?_
    exact ⟨ts ++ us, hts.append hus, h.append hmore⟩

theorem meets_pair {o cl : Mark} (hpair : Pair o cl)
    (hb : ∀ c, b.Meets c fun _ d ↦ ∃ ts, c.Passes ts d ∧ Bracketed ts) :
    (between o cl (do
      let _ ← many (firstOf [b, passing fun t ↦ !t.isBracket])
      pure ())).Meets c fun _ d ↦ ∃ ts, c.Passes ts d ∧ Bracketed ts := by
  have hfree : ∀ t : Token, (!t.isBracket) = ((fun _ ↦ true) t && !t.isBracket) := by simp
  refine .between fun l rest hrest hl ↦ .bind <| Meets.imp (meets_parts hb hfree _) ?_
  rintro _ d ⟨ts, hts, hinner⟩
  refine .pure fun m rest' hrest' hm ↦ ?_
  refine ⟨_, ((Cursor.passes_next hrest).append hts).append (Cursor.passes_next hrest'), ?_⟩
  rw [hl, hm]
  exact ⟨o, cl, ts, hpair, hinner, by simp⟩

theorem meets_bracketed (depth : Nat) :
    (bracketed depth).Meets c fun _ d ↦ ∃ ts, c.Passes ts d ∧ Bracketed ts := by
  induction depth generalizing c with
  | zero =>
    intro _ _ _ h
    cases h
  | succ depth ih =>
    refine .firstOf ?_
    simp only [List.forall_mem_cons]
    exact ⟨meets_pair .paren fun _ ↦ ih, meets_pair .bracket fun _ ↦ ih,
      meets_pair .brace fun _ ↦ ih, by simp⟩

theorem meets_balanced : balanced.Meets c fun _ d ↦ ∃ ts, c.Passes ts d ∧ Bracketed ts :=
  fun kept a d h ↦ meets_bracketed (c.rest.length + 1) kept a d h

/-! ### Balanced tokens are taken -/

/-- The brackets that open a pair. -/
def OpensPair (t : Token) : Prop := ∃ o cl, Pair o cl ∧ t = .mark o

theorem not_opensPair_of_isBracket {t : Token} (h : t.isBracket = false) : ¬ OpensPair t := by
  rintro ⟨o, cl, hpair, rfl⟩
  cases hpair <;> cases h

theorem Pair.not_opensPair {o cl : Mark} (h : Pair o cl) : ¬ OpensPair (.mark cl) := by
  rintro ⟨o', cl', h', heq⟩
  cases h <;> cases h' <;> cases heq

/-- A parser takes every pair of brackets that has fewer than `n` tokens ahead, and nothing else. -/
structure TakesBrackets (b : Parser Unit) (n : Nat) : Prop where
  finds : ∀ {c d : Cursor} {ts : List Token}, c.rest.length < n → c.Passes ts d → Bracketed ts →
    b.Finds c fun _ e ↦ e = d
  refuses : ∀ {c : Cursor}, (∀ t ∈ c.token?, ¬ OpensPair t) → b.Refuses c

theorem refuses_part {n : Nat} (hb : TakesBrackets b n)
    (htest : ∀ t, test t = (free t && !t.isBracket))
    (h : ∀ t ∈ c.token?, ¬ OpensPair t ∧ (free t = false ∨ t.isBracket)) :
    (firstOf [b, passing test]).Refuses c := by
  refine .firstOf ?_
  rw [List.forall_mem_cons, List.forall_mem_singleton]
  refine ⟨hb.refuses fun t ht ↦ (h t ht).1, .passing fun t ht ↦ ?_⟩
  rw [htest, Bool.and_eq_false_iff, Bool.not_eq_false']
  exact (h t ht).2

theorem finds_part {n : Nat} (hb : TakesBrackets b n)
    (htest : ∀ t, test t = (free t && !t.isBracket)) (hn : c.rest.length < n)
    (hd : c.Passes ts d) (h : Part free ts) :
    (firstOf [b, passing test]).Finds c fun _ e ↦ e = d := by
  rcases h with h | ⟨t, rfl, ht, hbracket⟩
  · exact .firstOf_head (hb.finds hn hd h)
  · obtain ⟨l, rest, hrest, rfl, hnil⟩ := Cursor.Passes.of_cons hd
    obtain rfl := hnil.eq_of_nil
    refine .firstOf_tail (hb.refuses ?_) <| .firstOf_head <| .passing hrest ?_ rfl
    · rw [Cursor.token?, hrest]
      simpa using not_opensPair_of_isBracket hbracket
    · rw [htest, ht, hbracket]
      rfl

theorem finds_parts {n limit : Nat} (hb : TakesBrackets b n)
    (htest : ∀ t, test t = (free t && !t.isBracket)) (hn : c.rest.length < n)
    (hd : c.Passes ts d) (h : Balanced free ts) (hlimit : c.rest.length ≤ limit)
    (hend : (firstOf [b, passing test]).Refuses d) :
    (upTo (firstOf [b, passing test]) limit).Finds c fun _ e ↦ e = d := by
  -- The tokens are taken part by part, and a part is a token at least.
  induction hlength : ts.length using Nat.strong_induction_on generalizing c ts limit with
  | _ k ih =>
    by_cases hne : ts = []
    · subst hne
      obtain rfl := hd.eq_of_nil
      exact .upTo_nil hend rfl
    · obtain ⟨us, vs, rfl, hpart, hmore⟩ := h.exists_part hne
      obtain ⟨e, hus, hvs⟩ := hd.of_append
      have hpos := List.length_pos_iff.mpr hpart.ne_nil
      have hlt : e.rest.length < c.rest.length := by rw [hus.length_eq]; omega
      refine .upTo_cons hlimit <| (finds_part hb htest hn hus hpart).imp ?_
      rintro _ _ rfl
      refine ⟨hlt, fun limit hlimit ↦ ?_⟩
      exact ih vs.length (by simp at hlength; omega) (hlt.trans hn) hvs hmore hlimit rfl

theorem finds_pair {n : Nat} {o cl : Mark} {inner : List Token} (hb : TakesBrackets b n)
    (hpair : Pair o cl) (hn : c.rest.length < n + 1)
    (hd : c.Passes (.mark o :: (inner ++ [.mark cl])) d)
    (hinner : Balanced (fun _ ↦ true) inner) :
    (between o cl (do
      let _ ← many (firstOf [b, passing fun t ↦ !t.isBracket])
      pure ())).Finds c fun _ e ↦ e = d := by
  obtain ⟨l, rest, hrest, hl, hd⟩ := hd.of_cons
  obtain ⟨e, he, hd⟩ := hd.of_append
  obtain ⟨m, rest', hrest', hm, hd⟩ := hd.of_cons
  obtain rfl := hd.eq_of_nil
  have hlt : (c.next l).rest.length < n := by
    rw [hrest, List.length_cons] at hn
    rw [Cursor.rest_next hrest]
    omega
  have hend : ∀ t ∈ e.token?, ¬ OpensPair t ∧ ((fun _ ↦ true) t = false ∨ t.isBracket) := by
    rw [Cursor.token?, hrest']
    simpa [hm] using ⟨hpair.not_opensPair, by cases hpair <;> rfl⟩
  refine .between hrest hl <| .bind <| .many <| (finds_parts hb (by simp) hlt he hinner
    (Nat.le_succ _) (refuses_part hb (by simp) hend)).imp ?_
  rintro _ _ rfl
  exact .pure ⟨m, rest', hrest', hm, rfl⟩

theorem takesBrackets_bracketed (depth : Nat) : TakesBrackets (bracketed depth) depth := by
  induction depth with
  | zero => exact ⟨fun h ↦ absurd h (Nat.not_lt_zero _), fun _ _ ↦ rfl⟩
  | succ depth ih =>
    refine ⟨fun {c d ts} hn hd ⟨o, cl, inner, hpair, hinner, hts⟩ ↦ ?_, fun {c} h ↦ .firstOf ?_⟩
    · subst hts
      obtain ⟨l, rest, hrest, hl, -⟩ := hd.of_cons
      have hnot : ∀ {m : Mark}, o ≠ m → c.token? ≠ some (.mark m) := by
        intro m hne
        rw [Cursor.token?, hrest, List.head?_cons, Option.map_some, hl]
        simpa using hne
      have hfinds := finds_pair ih hpair hn hd hinner
      cases hpair with
      | paren => exact .firstOf_head hfinds
      | bracket => exact .firstOf_tail (.between (hnot (by decide))) <| .firstOf_head hfinds
      | brace =>
        exact .firstOf_tail (.between (hnot (by decide))) <|
          .firstOf_tail (.between (hnot (by decide))) <| .firstOf_head hfinds
    · have hnot : ∀ {o cl : Mark}, Pair o cl → c.token? ≠ some (.mark o) :=
        fun hpair hc ↦ h _ hc ⟨_, _, hpair, rfl⟩
      simp only [List.forall_mem_cons]
      exact ⟨.between (hnot .paren), .between (hnot .bracket), .between (hnot .brace), by simp⟩

theorem takesBrackets_balanced (n : Nat) : TakesBrackets balanced n := by
  refine ⟨fun {c d ts} _ hd h ↦ ?_, fun {c} h kept ↦ ?_⟩
  · obtain ⟨a, e, hae, rfl⟩ := (takesBrackets_bracketed _).finds (Nat.lt_succ_self _) hd h
    exact ⟨a, e, fun kept ↦ hae kept, rfl⟩
  · exact (takesBrackets_bracketed (c.rest.length + 1)).refuses h kept

/-! ### The tokens of an option value -/

/-- A token that can stand in an option value outside of all brackets. -/
def notComma (t : Token) : Bool := t != .mark .comma

theorem notComma_and (t : Token) :
    (t != .mark .comma && !t.isBracket) = (notComma t && !t.isBracket) :=
  rfl

theorem meets_optionTokens : (do valuePart; many valuePart : Parser (List Unit)).Meets c fun _ d ↦
    ∃ ts, c.Passes ts d ∧ ts ≠ [] ∧ Balanced notComma ts := by
  refine .bind <| (meets_part (fun _ ↦ meets_balanced) notComma_and).imp ?_
  rintro _ d ⟨ts, hts, hpart⟩ kept as e has
  obtain ⟨us, hus, hmore⟩ :=
    meets_parts (fun _ ↦ meets_balanced) notComma_and (d.rest.length + 1) kept as e has
  exact ⟨ts ++ us, hts.append hus, by simp [hpart.ne_nil], hpart.append hmore⟩

theorem finds_optionTokens (hd : c.Passes ts d) (hne : ts ≠ []) (h : Balanced notComma ts)
    (hend : ∀ t ∈ d.token?, ¬ OpensPair t ∧ (notComma t = false ∨ t.isBracket)) :
    (do valuePart; many valuePart : Parser (List Unit)).Finds c fun _ e ↦ e = d := by
  obtain ⟨us, vs, rfl, hpart, hmore⟩ := h.exists_part hne
  obtain ⟨e, hus, hvs⟩ := hd.of_append
  have hb := takesBrackets_balanced (c.rest.length + 1)
  refine .bind <| (finds_part hb notComma_and (Nat.lt_succ_self _) hus hpart).imp ?_
  rintro _ _ rfl
  exact .many <| finds_parts (takesBrackets_balanced _) notComma_and (Nat.lt_succ_self _) hvs hmore
    (Nat.le_succ _) (refuses_part hb notComma_and hend)

end Templating.Grammar
