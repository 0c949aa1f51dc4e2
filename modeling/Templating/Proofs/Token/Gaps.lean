import Templating.Proofs.Token.Lexing

/-!
# Gaps between tokens

Blanks and complete comments make no tokens (`Lexer.Gap.lexed_append`). A gap stands in front of
every token of a text (`Lexer.Lexed.exists_gap`), and behind the last one, where the end of the text
can complete a comment (`Lexer.Lexed.endGap`). Cut texts are put together with gaps between them
(`Lexer.Cut.append_gap`, `Lexer.Cut.mark_cons`).
-/

namespace Templating.Lexer

/-- Blanks and comments, each comment up to the end of its line. -/
inductive Gap : List Char → Prop
  | nil : Gap []
  | blank {c : Char} {g : List Char} (hc : isSpace c) (h : Gap g) : Gap (c :: g)
  | comment {x g : List Char} (hx : '\n' ∉ x) (h : Gap g) : Gap ('/' :: '/' :: (x ++ '\n' :: g))

/-- A gap at the end of a text, where a comment needs no end of its line. -/
def EndGap (cs : List Char) : Prop :=
  ∃ g rest, cs = g ++ rest ∧ Gap g ∧ (rest = [] ∨ ∃ x, '\n' ∉ x ∧ rest = '/' :: '/' :: x)

variable {c : Char} {o : Nat} {cs g v w x y rest : List Char} {t : Token} {ts us : List Token}
  {l : Lexeme} {ls : List Lexeme}

theorem Gap.endGap (h : Gap g) : EndGap g := ⟨g, [], (List.append_nil g).symm, h, .inl rfl⟩

/-! ### Gaps make no tokens -/

theorem forall_ne_newline : (∀ d ∈ x, decide (d ≠ '\n')) ↔ '\n' ∉ x := by
  simp only [decide_eq_true_eq]
  constructor
  · intro h hmem
    exact h _ hmem rfl
  · rintro h d hd rfl
    exact h hd

theorem Gap.lexed_append (h : Gap g) : Lexed o (g ++ cs) ls ↔ Lexed (o + byteLength g) cs ls := by
  induction h generalizing o with
  | nil => rfl
  | blank hc _ ih => rw [List.cons_append, lexed_blank hc, ih, byteLength, Nat.add_assoc]
  | @comment x g hx _ ih =>
    have hcomment : Chunk '/' ('/' :: x) ('\n' :: (g ++ cs)) none :=
      .comment (forall_ne_newline.mpr hx) (stops_cons.mpr rfl)
    have hlength : byteLength ('/' :: '/' :: (x ++ '\n' :: g)) =
        byteLength ('/' :: '/' :: x) + (Char.utf8Size '\n' + byteLength g) := by
      simp only [byteLength, byteLength_append, Nat.add_assoc]
    rw [hlength, ← Nat.add_assoc, ← Nat.add_assoc, ← ih, ← lexed_blank (d := '\n') rfl,
      ← lexed_gap hcomment]
    simp

theorem EndGap.lexed (h : EndGap cs) (o : Nat) : Lexed o cs [] := by
  obtain ⟨g, rest, rfl, hg, hrest⟩ := h
  rw [hg.lexed_append]
  rcases hrest with rfl | ⟨x, hx, rfl⟩
  · exact .nil
  · have hcomment : Chunk '/' ('/' :: x) [] none := .comment (forall_ne_newline.mpr hx) stops_nil
    have hlexed := Lexed.gap (o := o + byteLength g) hcomment .nil
    rwa [List.append_nil] at hlexed

/-! ### What makes no token is a gap -/

theorem Gap.spaces_append (hx : ∀ d ∈ x, isSpace d) (h : Gap g) : Gap (x ++ g) := by
  induction x with
  | nil => exact h
  | cons d x ih =>
    rw [List.forall_mem_cons] at hx
    exact .blank hx.1 (ih hx.2)

/-- A chunk without a token goes on with the gap behind it, or it is a comment that nothing but the
end of the text completes. -/
theorem Chunk.gap_or_comment (hp : Chunk c x (g ++ rest) none) (hg : Gap g) :
    Gap (c :: (x ++ g)) ∨
      ∃ z, c = '/' ∧ x = '/' :: z ∧ '\n' ∉ z ∧ g = [] ∧ ∀ d ∈ rest.head?, d = '\n' := by
  generalize hy : g ++ rest = y at hp
  generalize hnone : (none : Option Token) = o at hp
  cases hp with
  | space hc hx =>
    left
    rw [← List.cons_append]
    exact Gap.spaces_append (List.forall_mem_cons.mpr ⟨hc, hx⟩) hg
  | @comment z _ hz hstop =>
    subst hy
    cases hg with
    | nil => exact .inr ⟨z, rfl, rfl, forall_ne_newline.mp hz, rfl, by simpa [Stops] using hstop⟩
    | @blank d g _ hg =>
      obtain rfl : d = '\n' := by simpa using hstop
      exact .inl (.comment (forall_ne_newline.mp hz) hg)
    | comment => exact absurd (stops_cons.mp hstop) (by decide)
  | _ => cases hnone

/-- In front of a token stands a gap. -/
theorem Lexed.exists_gap (h : Lexed o cs (l :: ls)) :
    ∃ g c x y, cs = g ++ c :: (x ++ y) ∧ Gap g ∧ Chunk c x y (some l.token) ∧
      Lexed (o + byteLength (g ++ c :: x)) y ls := by
  generalize hall : l :: ls = all at h
  induction h with
  | nil => cases hall
  | @gap o c x y _ hp _ ih =>
    obtain ⟨g, d, z, w, rfl, hg, hchunk, hlexed⟩ := ih hall
    refine ⟨c :: (x ++ g), d, z, w, by simp, ?_, hchunk, ?_⟩
    · rcases hp.gap_or_comment hg with hgap | ⟨-, -, -, -, -, hd⟩
      · exact hgap
      · obtain rfl : d = '\n' := by simpa using hd
        exact absurd hchunk.first_of_token.1 (by decide)
    · rw [Nat.add_assoc, ← byteLength_append] at hlexed
      simpa using hlexed
  | @token o c x y _ _ hp hy =>
    obtain ⟨rfl, rfl⟩ := List.cons.inj hall
    exact ⟨[], c, x, y, rfl, .nil, hp, hy⟩

/-- Behind the last token stands a gap that the end of the text may complete. -/
theorem Lexed.endGap (h : Lexed o cs []) : EndGap cs := by
  generalize hnil : ([] : List Lexeme) = ls at h
  induction h with
  | nil => exact Gap.nil.endGap
  | @gap o c x y _ hp _ ih =>
    obtain ⟨g, rest, rfl, hg, hrest⟩ := ih hnil
    rcases hp.gap_or_comment hg with hgap | ⟨z, rfl, rfl, hz, rfl, hd⟩
    · exact ⟨c :: (x ++ g), rest, by simp, hgap, hrest⟩
    · rcases hrest with rfl | ⟨x, -, rfl⟩
      · exact ⟨[], _, rfl, .nil, .inr ⟨z, hz, by simp⟩⟩
      · exact absurd (hd '/' rfl) (by decide)
  | token => cases hnil

/-- The text has these tokens. -/
def HasTokens (cs : List Char) (ts : List Token) : Prop :=
  ∃ o ls, Lexed o cs ls ∧ ls.map Lexeme.token = ts

theorem HasTokens.exists_gap (h : HasTokens cs (t :: ts)) :
    ∃ g c x y, cs = g ++ c :: (x ++ y) ∧ Gap g ∧ Chunk c x y (some t) ∧ HasTokens y ts := by
  obtain ⟨o, ls, hls, hts⟩ := h
  obtain ⟨l, ls, rfl, rfl, rfl⟩ := List.map_eq_cons_iff.mp hts
  obtain ⟨g, c, x, y, rfl, hg, hp, hy⟩ := hls.exists_gap
  exact ⟨g, c, x, y, rfl, hg, hp, _, ls, hy, rfl⟩

theorem HasTokens.endGap (h : HasTokens cs []) : EndGap cs := by
  obtain ⟨o, ls, hls, hts⟩ := h
  rw [List.map_eq_nil_iff.mp hts] at hls
  exact hls.endGap

/-! ### Cut texts with gaps between them -/

theorem isWordChar_of_isSpace (h : isSpace c) : isWordChar c = false ∧ c ≠ '.' := by
  simp only [isSpace, Bool.or_eq_true, beq_iff_eq] at h
  rcases h with ((rfl | rfl) | rfl) | rfl <;> decide

theorem Gap.clear_append (hg : Gap g) (h : Clear cs) : Clear (g ++ cs) := by
  cases hg with
  | nil => exact h
  | blank hc =>
    obtain ⟨hword, hdot⟩ := isWordChar_of_isSpace hc
    exact ⟨stops_cons.mpr hword, stops_cons.mpr (by simpa using hdot)⟩
  | comment => exact ⟨stops_cons.mpr rfl, stops_cons.mpr rfl⟩

theorem clear_nil : Clear [] := ⟨stops_nil, stops_nil⟩

theorem EndGap.clear (h : EndGap cs) : Clear cs := by
  obtain ⟨g, rest, rfl, hg, rfl | ⟨x, -, rfl⟩⟩ := h
  · exact hg.clear_append clear_nil
  · exact hg.clear_append ⟨stops_cons.mpr rfl, stops_cons.mpr rfl⟩

theorem Makes.of_gap (hg : Gap g) (h : Makes w ts) : Makes (g ++ w) ts := by
  intro o
  obtain ⟨used, hused, hstop, hlexed⟩ := h (o + byteLength g)
  rw [Nat.add_assoc, ← byteLength_append] at hstop hlexed
  refine ⟨used, hused, hstop, fun post ls hpost ↦ ?_⟩
  rw [List.append_assoc, hg.lexed_append, hlexed post ls hpost]

theorem Makes.append (hv : Makes v ts) (hw : Makes w us) (hclear : Clear w) (hne : us ≠ []) :
    Makes (v ++ w) (ts ++ us) := by
  intro o
  obtain ⟨used, rfl, -, hlexed⟩ := hv o
  obtain ⟨more, rfl, hstop, hmore⟩ := hw (o + byteLength v)
  rw [Nat.add_assoc, ← byteLength_append] at hstop hmore
  refine ⟨used ++ more, List.map_append, fun l hl ↦ hstop l ?_, fun post ls hpost ↦ ?_⟩
  · rwa [List.getLast?_append_of_ne_nil _ (by simpa using hne)] at hl
  · have hclear' : Clear (w ++ post) :=
      ⟨(List.append_nil w ▸ hclear.1).append hpost.1, (List.append_nil w ▸ hclear.2).append hpost.2⟩
    rw [List.append_assoc, hlexed _ _ hclear']
    simp only [hmore post _ hpost, List.append_assoc]
    constructor
    · rintro ⟨_, ⟨after, hafter, rfl⟩, rfl⟩
      exact ⟨after, hafter, rfl⟩
    · rintro ⟨after, hafter, rfl⟩
      exact ⟨_, ⟨after, hafter, rfl⟩, rfl⟩

theorem Chunk.cut (hp : Chunk c x y (some t)) : Cut (c :: x) [t] := by
  refine ⟨by simpa using hp.first_of_token, hp.last_of_token, by simp, ?_⟩
  have hmakes := Makes.token_append (v := []) (w := y) hp makes_nil fun _ ↦ rfl
  rwa [List.append_nil] at hmakes

theorem IsWord.cut (h : IsWord w t) : Cut w [t] := by
  obtain ⟨c, x, rfl, hc, hx, rfl⟩ := h
  exact (Chunk.word (y := []) hc hx stops_nil).cut

theorem Cut.append_gap (hv : Cut v ts) (hvne : ts ≠ []) (hg : Gap g) (hw : Cut w us)
    (hwne : us ≠ []) (hclear : Clear w) : Cut (v ++ (g ++ w)) (ts ++ us) := by
  have hv' : v ≠ [] := mt hv.eq_nil_iff.mpr hvne
  have hw' : w ≠ [] := mt hw.eq_nil_iff.mpr hwne
  refine ⟨?_, ?_, by simp [hvne, hv'], hv.makes.append (hw.makes.of_gap hg)
    (hg.clear_append hclear) hwne⟩
  · rw [List.head?_append_of_ne_nil _ hv']
    exact hv.first
  · rw [← List.append_assoc, List.getLast?_append_of_ne_nil _ hw']
    exact hw.last

/-- In front of a gap and a cut text, a mark is cut whatever the text begins with. -/
theorem Cut.mark_cons (m : Mark) (hg : Gap g) (hw : Cut w us) (hne : us ≠ []) :
    Cut (m.char :: (g ++ w)) (.mark m :: us) := by
  have hw' : w ≠ [] := mt hw.eq_nil_iff.mpr hne
  have hmark : Chunk m.char [] (g ++ w ++ []) (some (.mark m)) := .mark m
  have hmakes : Makes (m.char :: ([] ++ (g ++ w))) (.mark m :: us) :=
    (hw.makes.of_gap hg).token_append hmark fun h ↦ absurd h hne
  refine ⟨by simpa using hmark.first_of_token, ?_, by simp, hmakes⟩
  rw [← List.cons_append, List.getLast?_append_of_ne_nil _ hw']
  exact hw.last

end Templating.Lexer
