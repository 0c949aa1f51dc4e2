import Templating.Error
import Templating.Proofs.Grammar.Failures
import Templating.Proofs.Token.Tiling

/-!
# What errors name

The error of a text that makes no document is faithful if it names the token that it points at, and
the end of the text only there (`Grammar.Failure.Faithful`). A failure that points at the token
ahead is. One that points at the token behind is not, if it names the token ahead or, in front of
one, no token (`Grammar.faithful_iff_not_misnames`).
-/

namespace Templating

open Lexer Grammar

namespace Token

variable {t : Token} {m : Mark}

/-- The descriptions of words, texts and numbers begin like no other. -/
theorem exists_mark_of_head? (h : t.describe.toList.head? ∉ "kisn".toList.map some) :
    ∃ m, t = .mark m := by
  cases t with
  | mark m => exact ⟨m, rfl⟩
  | keyword | ident | string | number => exact absurd (by simp [describe]) h

theorem describe_ne_endOfInput (t : Token) : t.describe ≠ "end of input" := by
  intro h
  obtain ⟨m, rfl⟩ := exists_mark_of_head? (t := t) (by rw [h]; decide)
  revert h
  cases m <;> decide

theorem eq_of_describe (h : t.describe = (Token.mark m).describe) : t = .mark m := by
  have hall : ∀ m ∈ Mark.all, ∀ m' ∈ Mark.all,
      (Token.mark m').describe = (Token.mark m).describe → m' = m := by
    decide
  have hmem (m : Mark) : m ∈ Mark.all := by cases m <;> decide
  obtain ⟨m', rfl⟩ := exists_mark_of_head? (t := t) (by rw [h]; cases m <;> decide)
  rw [hall m (hmem m) m' (hmem m') h]

theorem exists_mark_of_delimits (h : delimits t) : ∃ m, t = .mark m := by
  cases t with
  | mark m => exact ⟨m, rfl⟩
  | _ => cases h

end Token

namespace Grammar

variable {src : Source} {ls : List Lexeme} {f : Failure} {l m : Lexeme} {t : Token}

/-- What the failure says in words. -/
abbrev Failure.message (f : Failure) : String := (SyntaxError.ofFailure f).message

/-- A token that the failure names is one that it points at, and it names the end of the text only
behind all tokens. -/
structure Failure.Faithful (ls : List Lexeme) (f : Failure) : Prop where
  token : ∀ t : Token, f.message = "Unexpected " ++ t.describe →
    ∃ l ∈ ls, l.span = f.span ∧ l.token.describe = t.describe
  endOfText : f.message = "Unexpected end of input" → f.index = ls.length

/-- The failure stands between two tokens and points at the first, a comma or a bracket that was
refused, but it names the end of the text or the second. -/
def Failure.Misnames (ls : List Lexeme) (f : Failure) : Prop :=
  ∃ used l m rest, ls = used ++ l :: m :: rest ∧ f.index = used.length + 1 ∧ f.span = l.span ∧
    delimits l.token ∧ (f.message = "Unexpected end of input" ∨
      m.token ≠ l.token ∧ f.message = "Unexpected " ++ m.token.describe)

theorem unexpected_inj {s s' : String} : "Unexpected " ++ s = "Unexpected " ++ s' ↔ s = s' :=
  String.append_right_inj _

theorem unexpected_ne_end (t : Token) :
    "Unexpected " ++ t.describe ≠ "Unexpected end of input" :=
  fun h ↦ t.describe_ne_endOfInput (unexpected_inj.mp h)

theorem Failure.faithful_of_token (hl : l ∈ ls) (hspan : l.span = f.span)
    (hmessage : f.message = "Unexpected " ++ l.token.describe) : f.Faithful ls := by
  constructor
  · intro t ht
    exact ⟨l, hl, hspan, unexpected_inj.mp (hmessage.symm.trans ht)⟩
  · intro hend
    exact absurd (hmessage.symm.trans hend) (unexpected_ne_end l.token)

theorem Failure.faithful_of_end (hindex : f.index = ls.length)
    (hmessage : f.message = "Unexpected end of input") : f.Faithful ls := by
  constructor
  · intro t ht
    exact absurd (ht.symm.trans hmessage) (unexpected_ne_end t)
  · exact fun _ ↦ hindex

theorem Failure.Misnames.not_faithful {o : Nat} {cs : List Char} (h : f.Misnames ls)
    (hls : Lexed o cs ls) : ¬ f.Faithful ls := by
  obtain ⟨used, l, m, rest, rfl, hindex, hspan, hl, hmessage⟩ := h
  intro hfaithful
  rcases hmessage with hend | ⟨hne, hmessage⟩
  · have hlength := hfaithful.endOfText hend
    rw [hindex, List.length_append, List.length_cons, List.length_cons] at hlength
    omega
  · obtain ⟨l', hl', hspan', hdescribe⟩ := hfaithful.token m.token hmessage
    obtain rfl : l' = l := hls.eq_of_span hl' (by simp) (hspan'.trans hspan)
    obtain ⟨k, hk⟩ := Token.exists_mark_of_delimits hl
    rw [hk] at hdescribe hne
    exact hne (Token.eq_of_describe hdescribe.symm)

theorem Placed.index_le {size : Nat} (h : Placed (.start ls size) f) : f.index ≤ ls.length := by
  cases h with
  | ahead hc | statement hc =>
    obtain ⟨used, rfl, hindex⟩ := Cursor.exists_of_start_reaches hc
    dsimp only
    rw [hindex, List.length_append]
    exact Nat.le_add_right ..
  | behind hc hrest =>
    obtain ⟨used, rfl, hindex⟩ := Cursor.exists_of_start_reaches hc
    dsimp only
    rw [hindex, hrest, List.length_append, List.length_cons]
    omega

theorem Placed.faithful_or_misnames {size : Nat} (h : Placed (.start ls size) f)
    (hraw : f.reason ≠ .rawIncludeBody) : f.Faithful ls ∨ f.Misnames ls := by
  cases h with
  | @ahead c expected hc =>
    obtain ⟨used, hls, hindex⟩ := Cursor.exists_of_start_reaches hc
    left
    unfold Cursor.span Cursor.token?
    cases hrest : c.rest with
    | nil =>
      refine Failure.faithful_of_end ?_ rfl
      rw [hls, hrest, List.append_nil]
      exact hindex
    | cons l rest => exact Failure.faithful_of_token (l := l) (by simp [hls, hrest]) rfl rfl
  | @behind c l rest found expected hc hrest hl hfound =>
    obtain ⟨used, hls, hindex⟩ := Cursor.exists_of_start_reaches hc
    rw [hrest] at hls
    rw [Cursor.token?, Cursor.rest_next hrest] at hfound
    cases rest with
    | nil =>
      obtain rfl : found = none := by simpa using hfound
      refine .inl (Failure.faithful_of_end ?_ rfl)
      simp [hls, hindex]
    | cons m rest =>
      rcases hfound with rfl | rfl
      · exact .inr ⟨used, l, m, rest, hls, congrArg (· + 1) hindex, rfl, hl, .inl rfl⟩
      · by_cases hm : m.token = l.token
        · refine .inl (Failure.faithful_of_token (l := l) (by simp [hls]) rfl ?_)
          rw [← hm]
          rfl
        · exact .inr ⟨used, l, m, rest, hls, congrArg (· + 1) hindex, rfl, hl, .inr ⟨hm, rfl⟩⟩
  | statement => exact absurd rfl hraw

/-- An error of the grammar points at the token ahead or at one that was refused, and it is faithful
unless it stands behind a refused token and names what is ahead. -/
theorem faithful_iff_not_misnames (hls : Lexer.lexemes src.text = .ok ls)
    (h : parse ls src = .error f) (hraw : f.reason ≠ .rawIncludeBody) :
    f.index ≤ ls.length ∧ Placed (.start ls src.size) f ∧
      (f.Faithful ls ↔ ¬ f.Misnames ls) := by
  have hplaced := placed_of_parse h
  refine ⟨hplaced.index_le, hplaced, fun hfaithful hmisnames ↦ ?_, fun hnot ↦ ?_⟩
  · exact hmisnames.not_faithful (lexed_iff.mpr hls) hfaithful
  · exact (hplaced.faithful_or_misnames hraw).resolve_right hnot

/-- A named block in the content of an element, without content of its own. -/
def pageSource : Source := ⟨"p. \x7b block page main", none⟩

def pageTokens : List Lexeme :=
  [⟨.ident "p", ⟨0, 1⟩⟩, ⟨.mark .dot, ⟨1, 2⟩⟩, ⟨.mark .braceOpen, ⟨3, 4⟩⟩,
    ⟨.keyword .block, ⟨5, 10⟩⟩, ⟨.ident "page", ⟨11, 15⟩⟩, ⟨.ident "main", ⟨16, 20⟩⟩]

def pageFailure : Failure :=
  ⟨5, ⟨16, 20⟩, .unexpected (some (.ident "main")) [.token (.mark .braceOpen)]⟩

theorem faithful_iff_not_misnames_pageSource :
    Lexer.lexemes pageSource.text = .ok pageTokens ∧
      parse pageTokens pageSource = .error pageFailure ∧
      pageFailure.message = "Unexpected identifier 'main'" ∧ pageFailure.Faithful pageTokens := by
  have hls : Lexer.lexemes pageSource.text = .ok pageTokens := by decide +kernel
  have hparse : parse pageTokens pageSource = .error pageFailure :=
    parse_eq_error.mpr ⟨by decide +kernel, by decide +kernel⟩
  refine ⟨hls, hparse, by decide, (faithful_iff_not_misnames hls hparse nofun).2.2.mpr ?_⟩
  rintro ⟨used, l, m, rest, htokens, hindex, hspan, -⟩
  have hl : pageTokens[pageFailure.index - 1]? = some l := by rw [htokens, hindex]; simp
  cases hl
  cases hspan

/-- A mixin with a text where its content is expected. -/
def strayTextSource : Source := ⟨"mixin m(a) \"x\"", none⟩

def strayTextTokens : List Lexeme :=
  [⟨.keyword .mixin, ⟨0, 5⟩⟩, ⟨.ident "m", ⟨6, 7⟩⟩, ⟨.mark .parenOpen, ⟨7, 8⟩⟩,
    ⟨.ident "a", ⟨8, 9⟩⟩, ⟨.mark .parenClose, ⟨9, 10⟩⟩, ⟨.string "x", ⟨11, 14⟩⟩]

/-- The text is named, and the parenthesis before it is pointed at. -/
def strayTextFailure : Failure :=
  ⟨5, ⟨9, 10⟩, .unexpected (some (.string "x")) [.token (.mark .braceOpen)]⟩

/-- A filter with an option that has no value. -/
def missingValueSource : Source := ⟨":f(x=) \x7b \x7d", none⟩

def missingValueTokens : List Lexeme :=
  [⟨.mark .colon, ⟨0, 1⟩⟩, ⟨.ident "f", ⟨1, 2⟩⟩, ⟨.mark .parenOpen, ⟨2, 3⟩⟩,
    ⟨.ident "x", ⟨3, 4⟩⟩, ⟨.mark .equals, ⟨4, 5⟩⟩, ⟨.mark .parenClose, ⟨5, 6⟩⟩,
    ⟨.mark .braceOpen, ⟨7, 8⟩⟩, ⟨.mark .braceClose, ⟨9, 10⟩⟩]

/-- The end of the text is named, and a parenthesis is pointed at that has two braces behind it. -/
def missingValueFailure : Failure := ⟨6, ⟨5, 6⟩, .unexpected none []⟩

theorem not_faithful_strayText_missingValue :
    (Lexer.lexemes strayTextSource.text = .ok strayTextTokens ∧
      parse strayTextTokens strayTextSource = .error strayTextFailure ∧
      strayTextFailure.message = "Unexpected string \"x\"" ∧
      ¬ strayTextFailure.Faithful strayTextTokens) ∧
    Lexer.lexemes missingValueSource.text = .ok missingValueTokens ∧
      parse missingValueTokens missingValueSource = .error missingValueFailure ∧
      missingValueFailure.message = "Unexpected end of input" ∧
      ¬ missingValueFailure.Faithful missingValueTokens := by
  constructor
  · refine ⟨by decide +kernel, parse_eq_error.mpr ⟨by decide +kernel, by decide +kernel⟩,
      by decide, fun hfaithful ↦ ?_⟩
    have hnone : ∀ l ∈ strayTextTokens, ¬ (l.span = strayTextFailure.span ∧
        l.token.describe = (Token.string "x").describe) := by
      decide
    obtain ⟨l, hl, hnamed⟩ := hfaithful.token (.string "x") rfl
    exact hnone l hl hnamed
  · refine ⟨by decide +kernel, parse_eq_error.mpr ⟨by decide +kernel, by decide +kernel⟩, rfl,
      fun hfaithful ↦ ?_⟩
    have hindex : missingValueFailure.index = missingValueTokens.length := hfaithful.endOfText rfl
    cases hindex

end Grammar

end Templating
