import Mathlib.Data.List.Nodup
import Templating.Error
import Templating.Proofs.Grammar.Standing

/-!
# Tilings

The tokens of a text and the gaps around them make up the text (`Source.TiledBy`). Where a text is
cut does not change what is lexed before the cut (`Lexer.Chunk.of_append`), so any run of tokens is
read again from the slice that it takes up (`Lexer.Lexed.exists_recut`), and what stands before the
characters that lexing refuses is lexed (`Lexer.exists_lexed_of_error`).
-/

namespace Templating

/-- The token with its place counted from byte `origin`. -/
def Lexeme.relativeTo (origin : Nat) (l : Lexeme) : Lexeme :=
  ⟨l.token, l.span.start - origin, l.span.stop - origin⟩

namespace Lexer

variable {c : Char} {o k : Nat} {cs v w x y : List Char} {t : Option Token} {l : Lexeme}
  {ls before used after : List Lexeme} {r : Refusal}

/-! ### Cutting a text -/

/-- A chunk is the same when the text is cut somewhere behind it. -/
theorem Chunk.of_append (h : Chunk c x (v ++ w) t) : Chunk c x v t := by
  cases t with
  | some t =>
    have hcut := h.token_append clear_nil
    rwa [List.append_nil] at hcut
  | none =>
    have hstops {p : Char → Bool} (hy : Stops p (v ++ w)) : Stops p v := by
      have hcut := hy.append stops_nil
      rwa [List.append_nil] at hcut
    cases h with
    | space hc hx hy => exact .space hc hx (hstops hy)
    | comment hx hy => exact .comment hx (hstops hy)

/-- A text is cut behind any of its tokens into two that are lexed. -/
theorem Lexed.exists_split (h : Lexed o cs (used ++ after)) :
    ∃ v w, cs = v ++ w ∧ Lexed o v used ∧ Lexed (o + byteLength v) w after ∧
      (used = [] → v = []) ∧ ∀ l ∈ used.getLast?, l.span.stop = o + byteLength v := by
  by_cases hne : used = []
  · subst hne
    exact ⟨[], cs, rfl, .nil, h, fun _ ↦ rfl, by simp⟩
  generalize hls : used ++ after = ls at h
  induction h generalizing used with
  | nil => simp [hne] at hls
  | @gap o c x y ls hp hy ih =>
    obtain ⟨v, w, rfl, hv, hw, -, hstop⟩ := ih hne hls
    rw [Nat.add_assoc, ← byteLength_append] at hw hstop
    exact ⟨c :: (x ++ v), w, by simp, .gap hp.of_append hv, hw, fun hnil ↦ absurd hnil hne, hstop⟩
  | @token o c x y t ls hp hy ih =>
    obtain ⟨l, used, rfl⟩ := List.exists_cons_of_ne_nil hne
    obtain ⟨rfl, rfl⟩ := List.cons.inj hls
    obtain ⟨v, w, rfl, hv, hw, hnil, hstop⟩ : ∃ v w, y = v ++ w ∧
        Lexed (o + byteLength (c :: x)) v used ∧
        Lexed (o + byteLength (c :: x) + byteLength v) w after ∧ (used = [] → v = []) ∧
        ∀ l ∈ used.getLast?, l.span.stop = o + byteLength (c :: x) + byteLength v := by
      by_cases hused : used = []
      · subst hused
        exact ⟨[], y, rfl, .nil, hy, fun _ ↦ rfl, by simp⟩
      · exact ih hused rfl
    rw [Nat.add_assoc, ← byteLength_append] at hw hstop
    refine ⟨c :: (x ++ v), w, by simp, .token hp.of_append hv, hw, nofun, fun m hm ↦ ?_⟩
    cases used with
    | nil =>
      obtain rfl := hnil rfl
      cases hm
      simp
    | cons m used =>
      rw [List.getLast?_cons_cons] at hm
      exact hstop _ hm

theorem Lexed.relativeTo (h : Lexed (k + o) cs ls) : Lexed o cs (ls.map (Lexeme.relativeTo k)) := by
  generalize hplace : k + o = place at h
  induction h generalizing o with
  | nil => exact .nil
  | gap hp _ ih => exact .gap hp (ih (by rw [← hplace, Nat.add_assoc]))
  | @token place c x y t ls hp _ ih =>
    have hl : Lexeme.relativeTo k ⟨t, place, place + byteLength (c :: x)⟩ =
        ⟨t, o, o + byteLength (c :: x)⟩ := by
      simp only [Lexeme.relativeTo, ← hplace, Nat.add_assoc, Nat.add_sub_cancel_left]
    rw [List.map_cons, hl]
    exact .token hp (ih (by rw [← hplace, Nat.add_assoc]))

/-- The slice from the start of one token to the end of another has the tokens between. -/
theorem Lexed.exists_recut (h : Lexed o cs (before ++ l :: (used ++ after))) :
    ∃ x v w, cs = x ++ (v ++ w) ∧ l.span.start = o + byteLength x ∧
      (∀ m ∈ (l :: used).getLast?, m.span.stop = o + byteLength x + byteLength v) ∧
      Lexed 0 v ((l :: used).map (Lexeme.relativeTo l.span.start)) := by
  obtain ⟨x, y, rfl, hstart, hy, -⟩ := h.exists_start
  rw [← List.cons_append] at hy
  obtain ⟨v, w, rfl, hv, -, -, hstop⟩ := hy.exists_split
  exact ⟨x, v, w, rfl, hstart, hstop, Lexed.relativeTo (o := 0) (hstart ▸ hv)⟩

/-- Before the characters that lexing refuses, the text is lexed. -/
theorem exists_lexed_of_error (h : lexemesFrom o cs = .error r) :
    ∃ x v w ls, cs = x ++ (v ++ w) ∧
      r.span = ⟨o + byteLength x, o + byteLength x + byteLength v⟩ ∧ Lexed o x ls := by
  -- As for lexed texts, each chunk leaves less of the text.
  induction hlength : cs.length using Nat.strong_induction_on generalizing o cs with
  | _ n ih =>
    cases cs with
    | nil =>
      rw [lexemesFrom] at h
      cases h
    | cons c rest =>
      rcases exists_chunk c rest with ⟨x, y, t, rfl, hp⟩ | ⟨more, hbad⟩
      · have hy : lexemesFrom (o + byteLength (c :: x)) y = .error r := by
          cases t with
          | none => rwa [lexemesFrom_gap hp] at h
          | some t =>
            rw [lexemesFrom_token hp] at h
            cases hy : lexemesFrom (o + byteLength (c :: x)) y with
            | ok ls =>
              rw [hy] at h
              cases h
            | error e =>
              rw [hy] at h
              cases h
              rfl
        obtain ⟨z, v, w, ls, rfl, hspan, hz⟩ := ih y.length (by simp at hlength; omega) hy rfl
        rw [Nat.add_assoc o, ← byteLength_append] at hspan
        cases t with
        | none => exact ⟨c :: (x ++ z), v, w, ls, by simp, hspan, .gap hp.of_append hz⟩
        | some t => exact ⟨c :: (x ++ z), v, w, _, by simp, hspan, .token hp.of_append hz⟩
      · rw [lexemesFrom, hbad] at h
        cases h
        exact ⟨[], c :: rest.take more, rest.drop more, [], by simp, rfl, .nil⟩

/-! ### Where tokens stand -/

theorem Lexed.le_start (h : Lexed o cs ls) : ∀ l ∈ ls, o ≤ l.span.start := by
  induction h with
  | nil => simp
  | gap _ _ ih => exact fun l hl ↦ (Nat.le_add_right ..).trans (ih l hl)
  | token _ _ ih =>
    exact List.forall_mem_cons.mpr
      ⟨Nat.le_refl _, fun l hl ↦ (Nat.le_add_right ..).trans (ih l hl)⟩

/-- A token ends before the next one begins. -/
theorem Lexed.pairwise (h : Lexed o cs ls) :
    ls.Pairwise fun l m ↦ l.span.stop ≤ m.span.start := by
  induction h with
  | nil => exact .nil
  | gap _ _ ih => exact ih
  | token _ hy ih => exact .cons (fun m hm ↦ hy.le_start m hm) ih

/-- A token takes up characters of the text. -/
theorem Lexed.exists_taken (h : Lexed o cs (before ++ l :: after)) :
    ∃ x v w, cs = x ++ (v ++ w) ∧ v ≠ [] ∧
      l.span = ⟨o + byteLength x, o + byteLength x + byteLength v⟩ := by
  rw [← List.nil_append after] at h
  obtain ⟨x, v, w, hcs, hstart, hstop, hv⟩ := h.exists_recut
  refine ⟨x, v, w, hcs, ?_, ?_⟩
  · rintro rfl
    cases hv
  · rw [← hstop l rfl, ← hstart]

theorem Lexed.start_lt_stop (h : Lexed o cs ls) (hl : l ∈ ls) : l.span.start < l.span.stop := by
  obtain ⟨before, after, rfl⟩ := List.append_of_mem hl
  obtain ⟨x, v, w, -, hv, hspan⟩ := h.exists_taken
  obtain ⟨c, v, rfl⟩ := List.exists_cons_of_ne_nil hv
  have hpos := c.utf8Size_pos
  rw [hspan]
  simp only [byteLength]
  omega

/-- No two tokens have the same place. -/
theorem Lexed.eq_of_span {m : Lexeme} (h : Lexed o cs ls) (hl : l ∈ ls) (hm : m ∈ ls)
    (hspan : l.span = m.span) : l = m := by
  have hnodup : (ls.map Lexeme.span).Nodup := by
    refine List.pairwise_map.mpr (h.pairwise.imp_of_mem fun {l m} hl hm hle heq ↦ ?_)
    have hlt := h.start_lt_stop hl
    rw [heq] at hle hlt
    exact absurd hle (Nat.not_le.mpr hlt)
  exact List.inj_on_of_nodup_map hnodup hl hm hspan

/-- In front of the first token the slice is a gap. -/
theorem Lexed.exists_leading (h : Lexed o cs (l :: ls)) :
    ∃ g y, cs = g ++ y ∧ Gap g ∧ l.span.start = o + byteLength g := by
  obtain ⟨g, c, x, y, rfl, hg, hp, -⟩ := h.exists_gap
  obtain ⟨hvisible, hslash⟩ := hp.first_of_token
  exact ⟨g, _, rfl, hg, (hg.lexed_append.mp h).start_eq hvisible hslash⟩

end Lexer

open Lexer

namespace Source

variable {src : Source} {x v w : List Char} {l m : Lexeme} {ls : List Lexeme}

theorem size_eq (src : Source) : src.size = byteLength src.text.toList := by
  have hall (cs : List Char) : (String.ofList cs).utf8ByteSize = byteLength cs := by
    induction cs with
    | nil => rfl
    | cons c cs ih =>
      rw [String.ofList_cons, String.utf8ByteSize_append, String.utf8ByteSize_singleton, ih]
      rfl
  rw [← hall, String.ofList_toList]
  rfl

theorem slice_eq (htext : src.text.toList = x ++ (v ++ w)) :
    src.slice ⟨byteLength x, byteLength x + byteLength v⟩ = v := by
  rw [slice, htext, sliceChars_append]

/-- The tokens and the gaps around them make up the text. -/
structure TiledBy (src : Source) (ls : List Lexeme) : Prop where
  /-- A token takes up whole characters, at least one. -/
  taken : ∀ l ∈ ls, l.span.start < l.span.stop ∧ ∃ x v w, src.text.toList = x ++ (v ++ w) ∧
    l.span = ⟨byteLength x, byteLength x + byteLength v⟩
  ascending : ls.Pairwise fun l m ↦ l.span.stop ≤ m.span.start
  leading : ∀ l ∈ ls.head?, Gap (src.slice ⟨0, l.span.start⟩)
  between : ∀ l m, [l, m] <:+: ls → Gap (src.slice ⟨l.span.stop, m.span.start⟩)
  trailing : EndGap (src.slice ⟨(ls.getLast?.map fun l ↦ l.span.stop).getD 0, src.size⟩)
  /-- From the start of a token to the end of the same or a later one, the text has the tokens
  between. -/
  recut : ∀ used, used <:+: ls → ∀ l ∈ used.head?, ∀ m ∈ used.getLast?,
    Lexer.lexemes (String.ofList (src.slice ⟨l.span.start, m.span.stop⟩)) =
      .ok (used.map (Lexeme.relativeTo l.span.start))

theorem tiledBy_of_lexemes (h : Lexer.lexemes src.text = .ok ls) : src.TiledBy ls := by
  have hlexed : Lexed 0 src.text.toList ls := lexed_iff.mpr h
  refine ⟨fun l hl ↦ ?_, hlexed.pairwise, fun l hl ↦ ?_, fun l m hlm ↦ ?_, ?_,
    fun used hused l hl m hm ↦ ?_⟩
  · refine ⟨hlexed.start_lt_stop hl, ?_⟩
    obtain ⟨before, after, rfl⟩ := List.append_of_mem hl
    obtain ⟨x, v, w, htext, -, hspan⟩ := hlexed.exists_taken
    rw [Nat.zero_add] at hspan
    exact ⟨x, v, w, htext, hspan⟩
  · obtain ⟨ls, rfl⟩ := List.head?_eq_some_iff.mp hl
    obtain ⟨g, y, htext, hg, hstart⟩ := hlexed.exists_leading
    have hslice : src.slice ⟨0, 0 + byteLength g⟩ = g := slice_eq (x := []) htext
    rw [hstart, hslice]
    exact hg
  · obtain ⟨before, after, rfl⟩ := hlm
    rw [List.append_assoc, List.cons_append, List.append_cons] at hlexed
    obtain ⟨v, w, htext, -, hw, -, hstop⟩ := hlexed.exists_split
    obtain ⟨g, y, rfl, hg, hstart⟩ := hw.exists_leading
    rw [hstop l (by simp), hstart, Nat.zero_add, slice_eq htext]
    exact hg
  · rw [← List.append_nil ls] at hlexed
    obtain ⟨v, w, htext, -, hw, hnil, hstop⟩ := hlexed.exists_split
    have hv : (ls.getLast?.map fun l ↦ l.span.stop).getD 0 = byteLength v := by
      cases hlast : ls.getLast? with
      | none =>
        rw [hnil (List.getLast?_eq_none_iff.mp hlast)]
        rfl
      | some l => simpa using hstop l hlast
    rw [hv, size_eq, htext, byteLength_append, slice_eq (w := []) (by rw [htext, List.append_nil])]
    exact hw.endGap
  · obtain ⟨before, after, rfl⟩ := hused
    obtain ⟨used, rfl⟩ := List.head?_eq_some_iff.mp hl
    rw [List.append_assoc, List.cons_append] at hlexed
    obtain ⟨x, v, w, htext, hstart, hstop, hv⟩ := hlexed.exists_recut
    rw [Nat.zero_add] at hstart
    rw [hstop m hm, Nat.zero_add, hstart, slice_eq htext, ← hstart, Lexer.lexemes,
      String.toList_ofList]
    exact lexed_iff.mp hv

/-- Lexing tiles the text, or the text before the place where it stops. -/
theorem lexemes_tile (src : Source) :
    match src.lexemes with
    | .ok ls => src.TiledBy ls
    | .error e => ∃ v w ls, src.text.toList = v ++ w ∧ e.span.start = byteLength v ∧
        (⟨String.ofList v, src.file⟩ : Source).lexemes = .ok ls := by
  unfold lexemes
  cases h : Lexer.lexemes src.text with
  | ok ls => exact tiledBy_of_lexemes h
  | error r =>
    obtain ⟨x, v, w, ls, htext, hspan, hx⟩ := exists_lexed_of_error h
    rw [Nat.zero_add] at hspan
    refine ⟨x, v ++ w, ls, htext, congrArg Span.start hspan, ?_⟩
    rw [Lexer.lexemes, String.toList_ofList, lexed_iff.mp hx]
    rfl

/-- Tokens that touch, a comment with a quote in it, and a quote that is never closed. -/
def brokenSource : Source := ⟨"a-1.5 1.x'é\\'//'//\"b\n\"c\" d \"e", none⟩

theorem lexemes_tile_brokenSource :
    ∃ e v w ls, brokenSource.lexemes = .error e ∧ e.span = ⟨28, 30⟩ ∧
      brokenSource.text.toList = v ++ w ∧ e.span.start = byteLength v ∧
      (⟨String.ofList v, none⟩ : Source).lexemes = .ok ls ∧
      (⟨String.ofList v, none⟩ : Source).TiledBy ls := by
  have hspan : brokenSource.lexemes = .error ⟨⟨28, 30⟩, .badCharacter "\"e"⟩ := by
    decide +kernel
  have htile := lexemes_tile brokenSource
  rw [hspan] at htile
  obtain ⟨v, w, ls, htext, hstart, hv⟩ := htile
  have hbefore := lexemes_tile ⟨String.ofList v, none⟩
  rw [show (⟨String.ofList v, none⟩ : Source).lexemes = .ok ls from hv] at hbefore
  exact ⟨_, v, w, ls, hspan, rfl, htext, hstart, hv, hbefore⟩

end Source

end Templating
