import Templating.Proofs.Token.Chunks

/-!
# Lexed texts

A text is lexed if it is a sequence of chunks (`Lexer.Lexed`); the tokens among them are what
lexing yields (`Lexer.lexed_iff`). From the start of one token of a text to the end of another, the
text has the tokens between them wherever it stands (`Lexer.Lexed.exists_cut`).
-/

namespace Templating.Lexer

/-- The text is a sequence of chunks, from byte `o` on, with these tokens. -/
inductive Lexed : Nat → List Char → List Lexeme → Prop
  | nil {o : Nat} : Lexed o [] []
  | gap {o : Nat} {c : Char} {x y : List Char} {ls : List Lexeme} (hp : Chunk c x y none)
    (hy : Lexed (o + byteLength (c :: x)) y ls) : Lexed o (c :: (x ++ y)) ls
  | token {o : Nat} {c : Char} {x y : List Char} {t : Token} {ls : List Lexeme}
    (hp : Chunk c x y (some t)) (hy : Lexed (o + byteLength (c :: x)) y ls) :
    Lexed o (c :: (x ++ y)) (⟨t, o, o + byteLength (c :: x)⟩ :: ls)

variable {c d : Char} {o o' : Nat} {cs x y v w post : List Char} {t : Token} {l : Lexeme}
  {ls used after : List Lexeme}

theorem lexemesFrom_gap (hp : Chunk c x y none) :
    lexemesFrom o (c :: (x ++ y)) = lexemesFrom (o + byteLength (c :: x)) y := by
  rw [lexemesFrom, hp.scan_eq]
  simp

theorem lexemesFrom_token (hp : Chunk c x y (some t)) :
    lexemesFrom o (c :: (x ++ y)) =
      (lexemesFrom (o + byteLength (c :: x)) y).map (⟨t, o, o + byteLength (c :: x)⟩ :: ·) := by
  rw [lexemesFrom, hp.scan_eq]
  simp only [Option.elim_some, List.take_left, List.drop_left]
  cases lexemesFrom (o + byteLength (c :: x)) y <;> rfl

theorem lexed_of_lexemesFrom (h : lexemesFrom o cs = .ok ls) : Lexed o cs ls := by
  -- A chunk takes a character at least, so what is left is shorter.
  induction hlength : cs.length using Nat.strong_induction_on generalizing o cs ls with
  | _ n ih =>
    cases cs with
    | nil =>
      rw [lexemesFrom] at h
      cases h
      exact .nil
    | cons c rest =>
      rcases exists_chunk c rest with ⟨x, y, _ | t, rfl, hp⟩ | ⟨more, hbad⟩
      · rw [lexemesFrom_gap hp] at h
        exact .gap hp (ih y.length (by simp at hlength; omega) h rfl)
      · rw [lexemesFrom_token hp] at h
        cases hy : lexemesFrom (o + byteLength (c :: x)) y with
        | ok after =>
          rw [hy] at h
          cases h
          exact .token hp (ih y.length (by simp at hlength; omega) hy rfl)
        | error e =>
          rw [hy] at h
          cases h
      · rw [lexemesFrom, hbad] at h
        cases h

/-- A text is lexed with the tokens that lexing yields. -/
theorem lexed_iff : Lexed o cs ls ↔ lexemesFrom o cs = .ok ls := by
  refine ⟨fun h ↦ ?_, lexed_of_lexemesFrom⟩
  induction h with
  | nil => rw [lexemesFrom]
  | gap hp _ ih => rw [lexemesFrom_gap hp, ih]
  | token hp _ ih => rw [lexemesFrom_token hp, ih]; rfl

/-! ### Stepping over a chunk -/

theorem lexed_gap (hp : Chunk c x y none) :
    Lexed o (c :: (x ++ y)) ls ↔ Lexed (o + byteLength (c :: x)) y ls := by
  rw [lexed_iff, lexed_iff, lexemesFrom_gap hp]

theorem lexed_token (hp : Chunk c x y (some t)) :
    Lexed o (c :: (x ++ y)) ls ↔ ∃ after, Lexed (o + byteLength (c :: x)) y after ∧
      ls = ⟨t, o, o + byteLength (c :: x)⟩ :: after := by
  simp only [lexed_iff, lexemesFrom_token hp]
  cases lexemesFrom (o + byteLength (c :: x)) y <;> simp [Except.map, eq_comm]

theorem lexed_blank (hd : isSpace d) : Lexed o (d :: cs) ls ↔ Lexed (o + d.utf8Size) cs ls := by
  obtain ⟨x, y, rfl, hx, hy⟩ := exists_run isSpace cs
  rw [lexed_gap (.space hd hx hy)]
  cases x with
  | nil => rfl
  | cons e x =>
    rw [List.forall_mem_cons] at hx
    rw [List.cons_append, lexed_gap (.space hx.1 hx.2 hy)]
    simp only [byteLength, Nat.add_assoc]

/-- A word with its token. -/
def IsWord (w : List Char) (t : Token) : Prop :=
  ∃ c x, w = c :: x ∧ isWordStart c ∧ (∀ d ∈ x, isWordChar d) ∧ wordToken w = t

/-- A word that is no keyword. -/
def IsName (s : String) : Prop := IsWord s.toList (.ident s)

theorem isWord_keyword (k : Keyword) : IsWord k.text.toList (.keyword k) := by
  cases k <;> exact ⟨_, _, rfl, rfl, List.all_eq_true.mp rfl, by decide⟩

theorem Chunk.isName {s : String} (h : Chunk c x y (some t)) (ht : t = .ident s) : IsName s := by
  cases h with
  | word hc hx =>
    have hs : s = String.ofList (c :: x) := by
      unfold wordToken at ht
      split at ht
      · cases ht
      · exact (Token.ident.inj ht).symm
    subst hs
    exact ⟨c, x, String.toList_ofList, hc, hx, by rw [String.toList_ofList, ht]⟩
  | whole | fraction | quoted | mark => cases ht

theorem Lexed.isName {s : String} (h : Lexed o cs (l :: ls)) (hl : l.token = .ident s) :
    IsName s := by
  generalize hall : l :: ls = all at h
  induction h with
  | nil => cases hall
  | gap _ _ ih => exact ih hall
  | token hp =>
    obtain ⟨rfl, -⟩ := List.cons.inj hall
    exact hp.isName hl

/-! ### Cutting a text at its tokens -/

theorem byteLength_append (x y : List Char) :
    byteLength (x ++ y) = byteLength x + byteLength y := by
  induction x with
  | nil => simp [byteLength]
  | cons c x ih => simp [byteLength, ih, Nat.add_assoc]

theorem Lexed.exists_start {before : List Lexeme} (h : Lexed o cs (before ++ l :: after)) :
    ∃ x y, cs = x ++ y ∧ l.span.start = o + byteLength x ∧
      Lexed (o + byteLength x) y (l :: after) ∧ ∀ d ∈ y.head?, isVisible d ∧ d ≠ '/' := by
  generalize hls : before ++ l :: after = ls at h
  induction h generalizing before with
  | nil => simp at hls
  | @gap o c x y ls hp hy ih =>
    obtain ⟨z, w, rfl, hstart, hw⟩ := ih hls
    refine ⟨c :: x ++ z, w, by simp, ?_, ?_⟩
    · rw [hstart, byteLength_append, Nat.add_assoc]
    · rw [byteLength_append, ← Nat.add_assoc]
      exact hw
  | @token o c x y t ls hp hy ih =>
    cases before with
    | nil =>
      obtain ⟨rfl, rfl⟩ := List.cons.inj hls
      exact ⟨[], _, rfl, rfl, .token hp hy, by simpa using hp.first_of_token⟩
    | cons _ before =>
      obtain ⟨z, w, rfl, hstart, hw⟩ := ih (List.cons.inj hls).2
      refine ⟨c :: x ++ z, w, by simp, ?_, ?_⟩
      · rw [hstart, byteLength_append, Nat.add_assoc]
      · rw [byteLength_append, ← Nat.add_assoc]
        exact hw

/-- Wherever the text stands, if nothing behind it goes on with its last token, it has the tokens
`ts`, the last of which ends it. -/
def Makes (v : List Char) (ts : List Token) : Prop :=
  ∀ o, ∃ used, used.map Lexeme.token = ts ∧
    (∀ l ∈ used.getLast?, l.span.stop = o + byteLength v) ∧
    ∀ post ls, Clear post →
      (Lexed o (v ++ post) ls ↔ ∃ after, Lexed (o + byteLength v) post after ∧ ls = used ++ after)

theorem makes_nil : Makes [] [] := fun o ↦ ⟨[], rfl, by simp, fun post ls _ ↦ by simp [byteLength]⟩

theorem Makes.gap_append {ts : List Token} (hp : Chunk c x (v ++ w) none) (hv : v ≠ [])
    (h : Makes v ts) : Makes (c :: (x ++ v)) ts := by
  intro o
  obtain ⟨d, v, rfl⟩ := List.exists_cons_of_ne_nil hv
  obtain ⟨used, hused, hstop, hlexed⟩ := h (o + byteLength (c :: x))
  rw [Nat.add_assoc, ← byteLength_append] at hstop hlexed
  refine ⟨used, hused, hstop, fun post ls hpost ↦ ?_⟩
  rw [List.cons_append, List.append_assoc]
  exact (lexed_gap hp.gap_append).trans (hlexed post ls hpost)

theorem Makes.token_append {ts : List Token} (hp : Chunk c x (v ++ w) (some t)) (h : Makes v ts)
    (hend : ts = [] → v = []) : Makes (c :: (x ++ v)) (t :: ts) := by
  intro o
  obtain ⟨used, rfl, hstop, hlexed⟩ := h (o + byteLength (c :: x))
  rw [Nat.add_assoc, ← byteLength_append] at hstop hlexed
  refine ⟨⟨t, o, o + byteLength (c :: x)⟩ :: used, rfl, fun l hl ↦ ?_, fun post ls hpost ↦ ?_⟩
  · cases used with
    | nil =>
      obtain rfl := hend rfl
      cases hl
      simp
    | cons m used =>
      rw [List.getLast?_cons_cons] at hl
      exact hstop l hl
  · rw [List.cons_append, List.append_assoc, lexed_token (hp.token_append hpost)]
    constructor
    · rintro ⟨after, hafter, rfl⟩
      obtain ⟨rest, hrest, rfl⟩ := (hlexed post after hpost).mp hafter
      exact ⟨rest, hrest, rfl⟩
    · rintro ⟨rest, hrest, rfl⟩
      exact ⟨used ++ rest, (hlexed post _ hpost).mpr ⟨rest, hrest, rfl⟩, rfl⟩

/-- Up to the end of some token, a text makes the tokens that it has up to there. -/
theorem Lexed.exists_stop (h : Lexed o cs (used ++ after)) (hne : used ≠ []) :
    ∃ v w, cs = v ++ w ∧ v ≠ [] ∧ (∀ d ∈ v.getLast?, isVisible d) ∧
      (∀ l ∈ used.getLast?, l.span.stop = o + byteLength v) ∧
      Lexed (o + byteLength v) w after ∧ Makes v (used.map Lexeme.token) := by
  generalize hls : used ++ after = ls at h
  induction h generalizing used with
  | nil => simp [hne] at hls
  | @gap o c x y ls hp hy ih =>
    obtain ⟨v, w, rfl, hv, hlast, hstop, hw, hmakes⟩ := ih hne hls
    refine ⟨c :: (x ++ v), w, by simp, by simp, fun d hd ↦ hlast d ?_, fun l hl ↦ ?_, ?_,
      hmakes.gap_append hp hv⟩
    · rwa [← List.cons_append, List.getLast?_append_of_ne_nil _ hv] at hd
    · rw [hstop l hl, ← List.cons_append, byteLength_append, Nat.add_assoc]
    · rwa [← List.cons_append, byteLength_append, ← Nat.add_assoc]
  | @token o c x y t ls hp hy ih =>
    obtain ⟨l, used, rfl⟩ := List.exists_cons_of_ne_nil hne
    obtain ⟨rfl, rfl⟩ := List.cons.inj hls
    by_cases hused : used = []
    · subst hused
      refine ⟨c :: x, y, rfl, by simp, hp.last_of_token, fun l hl ↦ ?_, hy, ?_⟩
      · cases hl
        rfl
      · have hmakes := Makes.token_append (v := []) (w := y) hp makes_nil fun _ ↦ rfl
        rwa [List.append_nil] at hmakes
    · obtain ⟨v, w, rfl, hv, hlast, hstop, hw, hmakes⟩ := ih hused rfl
      refine ⟨c :: (x ++ v), w, by simp, by simp, fun d hd ↦ hlast d ?_, fun l hl ↦ ?_, ?_,
        hmakes.token_append hp fun h ↦ absurd (List.map_eq_nil_iff.mp h) hused⟩
      · rwa [← List.cons_append, List.getLast?_append_of_ne_nil _ hv] at hd
      · rw [← List.singleton_append, List.getLast?_append_of_ne_nil _ hused] at hl
        rw [hstop l hl, ← List.cons_append, byteLength_append, Nat.add_assoc]
      · rwa [← List.cons_append, byteLength_append, ← Nat.add_assoc]

/-- A text from the start of a token to the end of a token, with its tokens, or no text. -/
structure Cut (v : List Char) (ts : List Token) : Prop where
  first : ∀ d ∈ v.head?, isVisible d ∧ d ≠ '/'
  last : ∀ d ∈ v.getLast?, isVisible d
  eq_nil_iff : ts = [] ↔ v = []
  makes : Makes v ts

theorem cut_nil : Cut [] [] := ⟨by simp, by simp, by simp, makes_nil⟩

/-- From the start of one of its tokens to the end of another, a text is cut. -/
theorem Lexed.exists_cut {before : List Lexeme} (h : Lexed o cs (before ++ (used ++ after)))
    (hne : used ≠ []) :
    ∃ x v w, cs = x ++ (v ++ w) ∧ Cut v (used.map Lexeme.token) ∧
      (∀ l ∈ used.head?, l.span.start = o + byteLength x) ∧
      ∀ l ∈ used.getLast?, l.span.stop = o + byteLength x + byteLength v := by
  obtain ⟨l, used, rfl⟩ := List.exists_cons_of_ne_nil hne
  obtain ⟨x, y, rfl, hstart, hy, hfirst⟩ := h.exists_start
  obtain ⟨v, w, rfl, hv, hlast, hstop, -, hmakes⟩ := hy.exists_stop hne
  obtain ⟨d, v, rfl⟩ := List.exists_cons_of_ne_nil hv
  refine ⟨x, d :: v, w, rfl, ⟨by simpa using hfirst, hlast, by simp, hmakes⟩, ?_, hstop⟩
  simpa using hstart

theorem Lexed.start_eq (h : Lexed o (d :: cs) (l :: ls)) (hd : isVisible d) (hslash : d ≠ '/') :
    l.span.start = o := by
  cases h with
  | token => rfl
  | gap hp =>
    cases hp with
    | space hc => exact absurd hc (by simp [isSpace_of_isVisible hd])
    | comment => exact absurd rfl hslash

end Templating.Lexer
