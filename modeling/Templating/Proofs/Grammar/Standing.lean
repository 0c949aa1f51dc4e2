import Templating.Grammar.Template
import Templating.Proofs.Token.Gaps

/-!
# Places in a text

A cursor stands before some characters of a text when it has their tokens ahead (`Source.Stands`).
It goes over blanks by itself, and takes a token with the characters of the token. The text that is
captured from one token to another is what stands there (`Grammar.captured_eq`).
-/

namespace Templating

open Lexer Grammar

/-! ### Slices -/

namespace Source

theorem takeBytes_append (x y : List Char) : takeBytes (byteLength x) (x ++ y) = x := by
  induction x with
  | nil => cases y <;> rfl
  | cons c x ih =>
    obtain ⟨n, hn⟩ : ∃ n, byteLength (c :: x) = n + 1 :=
      ⟨byteLength (c :: x) - 1, by have := c.utf8Size_pos; simp only [byteLength]; omega⟩
    have hrest : n + 1 - c.utf8Size = byteLength x := by
      rw [← hn, byteLength, Nat.add_sub_cancel_left]
    rw [hn, List.cons_append, takeBytes, hrest, ih]

theorem dropBytes_append (x y : List Char) : dropBytes (byteLength x) (x ++ y) = y := by
  induction x with
  | nil => cases y <;> rfl
  | cons c x ih =>
    obtain ⟨n, hn⟩ : ∃ n, byteLength (c :: x) = n + 1 :=
      ⟨byteLength (c :: x) - 1, by have := c.utf8Size_pos; simp only [byteLength]; omega⟩
    have hrest : n + 1 - c.utf8Size = byteLength x := by
      rw [← hn, byteLength, Nat.add_sub_cancel_left]
    rw [hn, List.cons_append, dropBytes, hrest, ih]

theorem sliceChars_append (x v w : List Char) :
    sliceChars (x ++ (v ++ w)) ⟨byteLength x, byteLength x + byteLength v⟩ = v := by
  simp only [sliceChars, dropBytes_append, Nat.add_sub_cancel_left, takeBytes_append]

end Source

theorem Text.trimChars_eq {v : List Char} (hfirst : ∀ d ∈ v.head?, Text.isBlank d = false)
    (hlast : ∀ d ∈ v.getLast?, Text.isBlank d = false) : Text.trimChars v = v := by
  have hdrop : v.dropWhile Text.isBlank = v := by
    cases v with
    | nil => rfl
    | cons c v => exact List.dropWhile_cons_of_neg (by simp [hfirst c rfl])
  have hreverse : v.reverse.dropWhile Text.isBlank = v.reverse := by
    cases hv : v.reverse with
    | nil => rfl
    | cons c w =>
      have hc : c ∈ v.getLast? := by rw [← List.head?_reverse, hv]; rfl
      exact List.dropWhile_cons_of_neg (by simp [hlast c hc])
  rw [Text.trimChars, hdrop, hreverse, List.reverse_reverse]

variable {src : Source} {c d : Cursor} {x v w cs post : List Char} {ts : List Token} {t : Token}
  {l : Lexeme} {rest used : List Lexeme}

/-- What is captured over a cut text is the text. -/
theorem Grammar.captured_eq (htext : src.text.toList = x ++ (v ++ w)) (hv : Cut v ts) :
    captured src ⟨byteLength x, byteLength x + byteLength v⟩ = String.ofList v := by
  rw [captured, Source.slice, htext, Source.sliceChars_append, Text.trimChars_eq]
  · exact fun d hd ↦ isBlank_of_isVisible (hv.first d hd).1
  · exact fun d hd ↦ isBlank_of_isVisible (hv.last d hd)

theorem Grammar.captured_eq_empty {s : Span} (h : s.stop ≤ s.start) : captured src s = "" := by
  rw [captured, Source.slice, Source.sliceChars, Nat.sub_eq_zero_of_le h]
  cases Source.dropBytes s.start src.text.toList <;> rfl

/-! ### Taking tokens -/

namespace Grammar.Cursor

/-- The tokens are taken from one place to another. -/
inductive Takes : Cursor → List Lexeme → Cursor → Prop
  | nil {c : Cursor} : Takes c [] c
  | cons {c d : Cursor} {l : Lexeme} {rest used : List Lexeme} (hrest : c.rest = l :: rest)
    (h : Takes (c.next l) used d) : Takes c (l :: used) d

theorem rest_next (hrest : c.rest = l :: rest) : (c.next l).rest = rest := by
  rw [next, hrest]
  rfl

theorem length_next (hrest : c.rest = l :: rest) : (c.next l).rest.length < c.rest.length := by
  rw [rest_next hrest, hrest]
  exact Nat.lt_succ_self _

theorem takes_next (hrest : c.rest = l :: rest) : c.Takes [l] (c.next l) := .cons hrest .nil

theorem Takes.append {e : Cursor} {more : List Lexeme} (h : c.Takes used d)
    (hmore : d.Takes more e) : c.Takes (used ++ more) e := by
  induction h with
  | nil => exact hmore
  | cons hrest _ ih => exact .cons hrest (ih hmore)

theorem Takes.rest_eq (h : c.Takes used d) : c.rest = used ++ d.rest := by
  induction h with
  | nil => rfl
  | cons hrest _ ih => rw [hrest, List.cons_append, ← ih, rest_next hrest]

theorem Takes.stop_eq (h : c.Takes used d) : ∀ l ∈ used.getLast?, d.stop = l.span.stop := by
  induction h with
  | nil => simp
  | @cons c d l rest used hrest h ih =>
    intro m hm
    cases h with
    | nil =>
      cases hm
      rfl
    | cons hrest' h =>
      rw [List.getLast?_cons_cons] at hm
      exact ih m hm

theorem exists_takes (hrest : c.rest = used ++ rest) : ∃ d, c.Takes used d ∧ d.rest = rest := by
  induction used generalizing c with
  | nil => exact ⟨c, .nil, hrest⟩
  | cons l used ih =>
    obtain ⟨d, hd, hdrest⟩ := ih (rest_next hrest)
    exact ⟨d, .cons hrest hd, hdrest⟩

/-- Tokens like these are taken from one place to another. -/
def Passes (c : Cursor) (ts : List Token) (d : Cursor) : Prop :=
  ∃ used, c.Takes used d ∧ used.map Lexeme.token = ts

theorem passes_nil : c.Passes [] c := ⟨[], .nil, rfl⟩

theorem passes_next (hrest : c.rest = l :: rest) : c.Passes [l.token] (c.next l) :=
  ⟨[l], takes_next hrest, rfl⟩

theorem Passes.append {e : Cursor} {us : List Token} (h : c.Passes ts d) (hmore : d.Passes us e) :
    c.Passes (ts ++ us) e := by
  obtain ⟨used, hused, rfl⟩ := h
  obtain ⟨more, hmore, rfl⟩ := hmore
  exact ⟨used ++ more, hused.append hmore, by simp⟩

theorem Passes.of_cons (h : c.Passes (t :: ts) d) :
    ∃ l rest, c.rest = l :: rest ∧ l.token = t ∧ (c.next l).Passes ts d := by
  obtain ⟨used, hused, hts⟩ := h
  cases hused with
  | nil => cases hts
  | cons hrest h =>
    obtain ⟨rfl, rfl⟩ := List.cons.inj hts
    exact ⟨_, _, hrest, rfl, _, h, rfl⟩

theorem Passes.of_append {us : List Token} (h : c.Passes (ts ++ us) d) :
    ∃ e, c.Passes ts e ∧ e.Passes us d := by
  induction ts generalizing c with
  | nil => exact ⟨c, passes_nil, h⟩
  | cons t ts ih =>
    obtain ⟨l, rest, hrest, rfl, hnext⟩ := Passes.of_cons h
    obtain ⟨e, hts, hus⟩ := ih hnext
    exact ⟨e, (passes_next hrest).append hts, hus⟩

theorem Passes.length_eq (h : c.Passes ts d) : c.rest.length = ts.length + d.rest.length := by
  obtain ⟨used, hused, rfl⟩ := h
  rw [hused.rest_eq, List.length_append, List.length_map]

theorem Passes.eq_of_nil (h : c.Passes [] d) : d = c := by
  obtain ⟨used, hused, hts⟩ := h
  cases hused with
  | nil => rfl
  | cons => cases hts

end Grammar.Cursor

/-! ### Standing before characters -/

/-- Behind `pre` the characters are the rest of the text, and their tokens are ahead. -/
structure Source.StandsAt (src : Source) (pre cs : List Char) (c : Cursor) : Prop where
  text : src.text.toList = pre ++ cs
  lexed : Lexed (byteLength pre) cs c.rest

/-- The characters are the rest of the text, and their tokens are ahead. -/
def Source.Stands (src : Source) (cs : List Char) (c : Cursor) : Prop :=
  ∃ pre, src.StandsAt pre cs c

/-- The tokens ahead are those of the rest of the text. -/
def Source.Covers (src : Source) (c : Cursor) : Prop := ∃ cs, src.Stands cs c

namespace Source

variable {pre : List Char}

theorem StandsAt.takes (h : src.StandsAt pre cs c) (hd : c.Takes used d) (hne : used ≠ []) :
    ∃ v w, cs = v ++ w ∧ src.StandsAt (pre ++ v) w d ∧ d.stop = byteLength (pre ++ v) := by
  obtain ⟨v, w, rfl, -, -, hstop, hw, -⟩ := (hd.rest_eq ▸ h.lexed).exists_stop hne
  obtain ⟨l, hl⟩ := Option.ne_none_iff_exists'.mp (mt List.getLast?_eq_none_iff.mp hne)
  refine ⟨v, w, rfl, ⟨by rw [h.text, List.append_assoc], ?_⟩, ?_⟩
  · rw [byteLength_append]
    exact hw
  · rw [hd.stop_eq l hl, hstop l hl, byteLength_append]

/-- What is captured over tokens is a cut text with these tokens. -/
theorem StandsAt.exists_captured (h : src.StandsAt pre cs c) (hd : c.Takes used d)
    (hne : used ≠ []) :
    ∃ v, Cut v (used.map Lexeme.token) ∧ captured src (c.spanTo d) = String.ofList v := by
  obtain ⟨x, v, w, rfl, hv, hstart, hstop⟩ :=
    (show Lexed _ _ ([] ++ (used ++ d.rest)) from hd.rest_eq ▸ h.lexed).exists_cut hne
  obtain ⟨l, hl⟩ := Option.ne_none_iff_exists'.mp (mt List.getLast?_eq_none_iff.mp hne)
  obtain ⟨m, used, rfl⟩ := List.exists_cons_of_ne_nil hne
  refine ⟨v, hv, ?_⟩
  have hspan : c.spanTo d = ⟨byteLength (pre ++ x), byteLength (pre ++ x) + byteLength v⟩ := by
    rw [Cursor.spanTo, hd.stop_eq l hl, hstop l hl, Cursor.span, hd.rest_eq, byteLength_append]
    exact congrArg (Span.mk · (byteLength pre + byteLength x + byteLength v)) (hstart m rfl)
  rw [hspan]
  exact captured_eq (by rw [h.text, List.append_assoc]) hv

theorem StandsAt.le_start (h : src.StandsAt pre cs c) (hrest : c.rest = l :: rest) :
    byteLength pre ≤ l.span.start := by
  obtain ⟨x, y, -, hstart, -⟩ :=
    (show Lexed _ _ ([] ++ l :: rest) from hrest ▸ h.lexed).exists_start
  rw [hstart]
  exact Nat.le_add_right ..

/-- Nothing is captured between a token and the next. -/
theorem StandsAt.captured_self (h : src.StandsAt pre cs c) (hstop : c.stop = byteLength pre)
    (hrest : c.rest = l :: rest) : captured src (c.spanTo c) = "" := by
  refine captured_eq_empty ?_
  rw [Cursor.spanTo, hstop, Cursor.span, hrest]
  exact h.le_start hrest

theorem Covers.takes (h : src.Covers c) (hd : c.Takes used d) : src.Covers d := by
  obtain ⟨cs, pre, h⟩ := h
  by_cases hne : used = []
  · subst hne
    cases hd
    exact ⟨cs, pre, h⟩
  · obtain ⟨v, w, -, hw, -⟩ := h.takes hd hne
    exact ⟨w, _, hw⟩

theorem Covers.next (h : src.Covers c) (hrest : c.rest = l :: rest) : src.Covers (c.next l) :=
  h.takes (Cursor.takes_next hrest)

theorem Covers.isName {name : String} (h : src.Covers c) (hrest : c.rest = l :: rest)
    (hl : l.token = .ident name) : IsName name := by
  obtain ⟨cs, pre, h⟩ := h
  exact (hrest ▸ h.lexed).isName hl

theorem StandsAt.token {ch : Char} (hp : Chunk ch x cs (some t))
    (h : src.StandsAt pre (ch :: (x ++ cs)) c) :
    ∃ l rest, c.rest = l :: rest ∧ l.token = t ∧ src.StandsAt (pre ++ ch :: x) cs (c.next l) ∧
      (c.next l).stop = byteLength (pre ++ ch :: x) := by
  obtain ⟨after, hafter, hrest⟩ := (lexed_token hp).mp h.lexed
  refine ⟨_, after, hrest, rfl, ⟨by rw [h.text]; simp, ?_⟩, byteLength_append .. |>.symm⟩
  rw [byteLength_append, Cursor.rest_next hrest]
  exact hafter

/-- Before a cut text its tokens are ahead, and nothing but the text is captured over them. -/
theorem StandsAt.cut (h : src.StandsAt pre (v ++ cs) c) (hv : Cut v ts) (hcs : Clear cs) :
    ∃ used d, used.map Lexeme.token = ts ∧ c.Takes used d ∧ src.StandsAt (pre ++ v) cs d ∧
      (v ≠ [] → captured src (c.spanTo d) = String.ofList v) := by
  obtain ⟨used, hused, hstop, hlexed⟩ := hv.makes (byteLength pre)
  obtain ⟨after, hafter, hrest⟩ := (hlexed cs c.rest hcs).mp h.lexed
  obtain ⟨d, hd, rfl⟩ := Cursor.exists_takes hrest
  refine ⟨used, d, hused, hd, ⟨by rw [h.text, List.append_assoc], byteLength_append .. ▸ hafter⟩,
    fun hne ↦ ?_⟩
  obtain ⟨ch, v, rfl⟩ := List.exists_cons_of_ne_nil hne
  obtain ⟨l, used, rfl⟩ := List.exists_cons_of_ne_nil (l := used) fun hnil ↦
    hne (hv.eq_nil_iff.mp (by rw [← hused, hnil]; rfl))
  obtain ⟨hvisible, hslash⟩ := hv.first ch rfl
  have hstart : l.span.start = byteLength pre := (hd.rest_eq ▸ h.lexed).start_eq hvisible hslash
  obtain ⟨m, hm⟩ := Option.ne_none_iff_exists'.mp
    (mt List.getLast?_eq_none_iff.mp (List.cons_ne_nil l used))
  have hspan : c.spanTo d = ⟨byteLength pre, byteLength pre + byteLength (ch :: v)⟩ := by
    rw [Cursor.spanTo, hd.stop_eq m hm, hstop m hm, Cursor.span, hd.rest_eq]
    exact congrArg (Span.mk · (byteLength pre + byteLength (ch :: v))) hstart
  rw [hspan]
  exact captured_eq h.text hv

theorem Stands.rest_eq_nil (h : src.Stands [] c) : c.rest = [] := by
  obtain ⟨pre, -, hlexed⟩ := h
  rw [lexed_iff, lexemesFrom] at hlexed
  exact (Except.ok.inj hlexed).symm

theorem Stands.blank {ch : Char} (hch : isSpace ch) (h : src.Stands (ch :: cs) c) :
    src.Stands cs c := by
  obtain ⟨pre, h⟩ := h
  refine ⟨pre ++ [ch], by rw [h.text]; simp, ?_⟩
  rw [byteLength_append]
  exact (lexed_blank hch).mp h.lexed

theorem Stands.gap {g : List Char} (hg : Gap g) (h : src.Stands (g ++ cs) c) :
    src.Stands cs c := by
  obtain ⟨pre, h⟩ := h
  refine ⟨pre ++ g, by rw [h.text]; simp, ?_⟩
  rw [byteLength_append]
  exact hg.lexed_append.mp h.lexed

end Source

end Templating
