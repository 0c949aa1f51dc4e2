import Templating.Proofs.Grammar.SameTokens
import Templating.Proofs.Token.Tiling

/-!
# Layout

A text is laid out again when its tokens are written as they are, with other gaps around them
(`Source.Relaid`). A gap that is not empty keeps words and numbers apart, so the tokens stay the
same, also those that touched before (`Source.Relaid.exists_lexed`), and the documents of both
texts differ in layout only (`Source.layout_insensitive`).
-/

namespace Templating

open Lexer

variable {o : Nat} {cs g w : List Char} {l : Lexeme} {ls : List Lexeme}

namespace Lexer

theorem Gap.clear_append_of_ne_nil (hg : Gap g) (hne : g ≠ []) : Clear (g ++ w) := by
  have h := hg.clear_append clear_nil
  rw [List.append_nil] at h
  simpa only [Clear, Stops, List.head?_append_of_ne_nil _ hne] using h

/-- The first token of a text, the characters that it is read from, and where they stand. -/
theorem Lexed.exists_token (h : Lexed o cs (l :: ls)) :
    ∃ g c x y, cs = g ++ (c :: x ++ y) ∧ Chunk c x y (some l.token) ∧
      l.span = ⟨o + byteLength g, o + byteLength g + byteLength (c :: x)⟩ ∧
      Lexed (o + byteLength (g ++ c :: x)) y ls := by
  obtain ⟨g, c, x, y, rfl, hg, hp, hy⟩ := h.exists_gap
  obtain ⟨after, -, hl⟩ := (lexed_token hp).mp (hg.lexed_append.mp h)
  exact ⟨g, c, x, y, rfl, hp, congrArg Lexeme.span (List.cons.inj hl).1, hy⟩

end Lexer

namespace Source

variable {src again : Source}

/-- The tokens as they are written in the text, with blanks and comments in front of each and behind
the last one. -/
inductive Relaid (src : Source) : List Lexeme → List Char → Prop
  | nil {g : List Char} (hg : Gap g) (hne : g ≠ []) : Relaid src [] g
  | cons {g cs : List Char} {l : Lexeme} {ls : List Lexeme} (hg : Gap g) (hne : g ≠ [])
    (h : Relaid src ls cs) : Relaid src (l :: ls) (g ++ (src.slice l.span ++ cs))

theorem Relaid.clear (h : src.Relaid ls cs) : Clear cs := by
  cases h with
  | nil hg hne => exact List.append_nil cs ▸ hg.clear_append_of_ne_nil hne
  | cons hg hne => exact hg.clear_append_of_ne_nil hne

/-- Laid out again, the rest of a text has the tokens that it has. -/
theorem Relaid.exists_lexed {x y : List Char} (h : src.Relaid ls cs)
    (htext : src.text.toList = x ++ y) (hy : Lexed (byteLength x) y ls) (o : Nat) :
    ∃ ls', Lexed o cs ls' ∧ ls'.map Lexeme.token = ls.map Lexeme.token := by
  -- Token by token: `x` is what stands before those that are left.
  induction h generalizing x y o with
  | nil hg => exact ⟨[], hg.endGap.lexed o, rfl⟩
  | @cons g cs l ls hg hne h ih =>
    obtain ⟨g', c, v, w, rfl, hp, hspan, hw⟩ := hy.exists_token
    have hslice : src.slice l.span = c :: v := by
      rw [hspan, ← byteLength_append]
      exact slice_eq (by rw [htext, List.append_assoc])
    rw [← byteLength_append] at hw
    obtain ⟨ls', hcs, htokens⟩ := ih (by rw [htext]; simp) hw
      (o + byteLength g + byteLength (c :: v))
    -- Behind the characters of the token now stands a gap, or what begins with one.
    have hp' : Chunk c v cs (some l.token) := hp.token_append (v := []) h.clear
    rw [hslice]
    refine ⟨_, hg.lexed_append.mpr (.token hp' hcs), ?_⟩
    rw [List.map_cons, List.map_cons, htokens]

theorem lexemes_eq_ok : src.lexemes = .ok ls ↔ Lexer.lexemes src.text = .ok ls := by
  unfold lexemes
  cases Lexer.lexemes src.text <;> simp [Except.mapError]

/-- Layout does not matter: a text with its gaps changed has the same tokens, makes a document if
and only if it did before, and makes one that differs in lines, argument lists and option values
only. -/
theorem layout_insensitive (h : src.lexemes = .ok ls) (hfile : again.file = src.file)
    (hlaid : src.Relaid ls again.text.toList) :
    (∃ ls', again.lexemes = .ok ls' ∧ ls'.map Lexeme.token = ls.map Lexeme.token) ∧
      ((∃ n, src.document = .ok n) ↔ ∃ m, again.document = .ok m) ∧
      ∀ n m, src.document = .ok n → again.document = .ok m →
        n.withoutLayout id = m.withoutLayout id := by
  have hls := lexemes_eq_ok.mp h
  obtain ⟨ls', hlexed, htokens⟩ := hlaid.exists_lexed (x := []) rfl (lexed_iff.mpr hls) 0
  have hls' : Lexer.lexemes again.text = .ok ls' := lexed_iff.mp hlexed
  have hthere {n : Node} (hn : src.document = .ok n) : ∃ m, again.document = .ok m ∧ n.Alike id m :=
    exists_document_of_tokens id hfile.symm hls hls' htokens.symm hn
  refine ⟨⟨ls', lexemes_eq_ok.mpr hls', htokens⟩, ⟨?_, ?_⟩, fun n m hn hm ↦ ?_⟩
  · rintro ⟨n, hn⟩
    obtain ⟨m, hm, -⟩ := hthere hn
    exact ⟨m, hm⟩
  · rintro ⟨m, hm⟩
    obtain ⟨n, hn, -⟩ := exists_document_of_tokens id hfile hls' hls htokens hm
    exact ⟨n, hn⟩
  · obtain ⟨m', hm', halike⟩ := hthere hn
    cases hm.symm.trans hm'
    exact halike

/-- A filter whose tokens touch, with a comment behind it that nothing ends. -/
def closeSource : Source := ⟨":f(k=-1)\x7b\"a\"'b'\x7d//", none⟩

/-- The same filter with a comment within its option value and strings in lines of their own. -/
def wideSource : Source := ⟨" : f ( k = - // less\n1 ) \x7b\n\"a\"\n'b' \x7d\n", none⟩

/-- The tokens of the filter, with the places where they touch. -/
def closeTokens : List Lexeme :=
  [⟨.mark .colon, 0, 1⟩, ⟨.ident "f", 1, 2⟩, ⟨.mark .parenOpen, 2, 3⟩, ⟨.ident "k", 3, 4⟩,
    ⟨.mark .equals, 4, 5⟩, ⟨.mark .minus, 5, 6⟩, ⟨.number (Binary64.ofDecimal false 1 0), 6, 7⟩,
    ⟨.mark .parenClose, 7, 8⟩, ⟨.mark .braceOpen, 8, 9⟩, ⟨.string "a", 9, 12⟩,
    ⟨.string "b", 12, 15⟩, ⟨.mark .braceClose, 15, 16⟩]

theorem layout_insensitive_closeSource :
    closeSource.lexemes = .ok closeTokens ∧ wideSource.file = closeSource.file ∧
      closeSource.Relaid closeTokens wideSource.text.toList ∧
      (∃ ls', wideSource.lexemes = .ok ls' ∧
        ls'.map Lexeme.token = closeTokens.map Lexeme.token) ∧
      ∃ n m, closeSource.document = .ok n ∧ wideSource.document = .ok m ∧
        n.withoutLayout id = m.withoutLayout id := by
  have htokens : closeSource.lexemes = .ok closeTokens := by decide +kernel
  have hblank : Gap [' '] := .blank rfl .nil
  have hline : Gap ['\n'] := .blank rfl .nil
  have hcomment : Gap " // less\n".toList :=
    .blank rfl (.comment (x := " less".toList) (by decide) .nil)
  have hwide : closeSource.Relaid closeTokens wideSource.text.toList := by
    have htext : wideSource.text.toList =
        [' '] ++ (closeSource.slice ⟨0, 1⟩ ++ ([' '] ++ (closeSource.slice ⟨1, 2⟩ ++
        ([' '] ++ (closeSource.slice ⟨2, 3⟩ ++ ([' '] ++ (closeSource.slice ⟨3, 4⟩ ++
        ([' '] ++ (closeSource.slice ⟨4, 5⟩ ++ ([' '] ++ (closeSource.slice ⟨5, 6⟩ ++
        (" // less\n".toList ++ (closeSource.slice ⟨6, 7⟩ ++ ([' '] ++
        (closeSource.slice ⟨7, 8⟩ ++ ([' '] ++ (closeSource.slice ⟨8, 9⟩ ++
        (['\n'] ++ (closeSource.slice ⟨9, 12⟩ ++ (['\n'] ++ (closeSource.slice ⟨12, 15⟩ ++
        ([' '] ++ (closeSource.slice ⟨15, 16⟩ ++ ['\n']))))))))))))))))))))))) := by
      decide +kernel
    rw [htext]
    exact .cons hblank nofun <| .cons hblank nofun <| .cons hblank nofun <|
      .cons hblank nofun <| .cons hblank nofun <| .cons hblank nofun <|
      .cons hcomment nofun <| .cons hblank nofun <| .cons hblank nofun <|
      .cons hline nofun <| .cons hline nofun <| .cons hblank nofun <| .nil hline nofun
  have hfile : wideSource.file = closeSource.file := rfl
  obtain ⟨hagain, hiff, hsame⟩ := layout_insensitive htokens hfile hwide
  have hok : closeSource.document.isOk := by decide +kernel
  obtain ⟨n, hn⟩ : ∃ n, closeSource.document = .ok n := by
    cases hdocument : closeSource.document with
    | ok n => exact ⟨n, rfl⟩
    | error => simp [hdocument, Except.isOk, Except.toBool] at hok
  obtain ⟨m, hm⟩ := hiff.mp ⟨n, hn⟩
  exact ⟨htokens, hfile, hwide, hagain, n, m, hn, hm, hsame n m hn hm⟩

end Source

end Templating
