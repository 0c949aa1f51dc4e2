import Templating.Proofs.Constant.Reading
import Templating.Proofs.Token.Gaps

/-!
# Texts of literals

How a value is written as a literal (`Literal.Spells`): words, numerals, quoted text with escapes,
and arrays of literals, with gaps between their tokens. An expression has a value exactly if it is
such a text between gaps (`Literal.evaluate_eq_ok_iff`).
-/

namespace Templating.Literal

open Lexer Grammar

/-- A number, and how it is written: in digits, perhaps with a fraction. -/
inductive Numeral : Binary64 → List Char → Prop
  | whole {x : List Char} (hne : x ≠ []) (hx : ∀ d ∈ x, isDigit d) :
    Numeral (.ofDecimal false (digitsValue x) 0) x
  | fraction {x f : List Char} (hne : x ≠ []) (hx : ∀ d ∈ x, isDigit d) (hfne : f ≠ [])
    (hf : ∀ d ∈ f, isDigit d) :
    Numeral (.ofDecimal false (digitsValue (x ++ f)) (-(f.length : Int))) (x ++ '.' :: f)

/-- The words that are constants. -/
inductive Word : Constant → String → Prop
  | true : Word (.bool true) "true"
  | false : Word (.bool false) "false"
  | null : Word .null "null"
  | undefined : Word .null "undefined"

/-- The end of an array that is not empty: its bracket, perhaps behind a comma. -/
inductive Closing : List Char → Prop
  | bracket : Closing [']']
  | comma {g : List Char} (hg : Gap g) : Closing (',' :: (g ++ [']']))

/-- Values, and how they are written as literals with commas between them. A literal by itself is
one of them. -/
inductive Spells : List Constant → List Char → Prop
  | word {v : Constant} {s : String} (h : Word v s) : Spells [v] s.toList
  | number {a : Binary64} {w : List Char} (h : Numeral a w) : Spells [.number a] w
  | negative {a : Binary64} {g w : List Char} (hg : Gap g) (h : Numeral a w) :
    Spells [.number a.neg] ('-' :: (g ++ w))
  | string {q : Char} {s w : List Char} (hq : q = '"' ∨ q = '\'') (h : Quoted q s w) :
    Spells [.string (String.ofList s)] (q :: (w ++ [q]))
  | empty {g : List Char} (hg : Gap g) : Spells [.array []] ('[' :: (g ++ [']']))
  | array {vs : List Constant} {g g' w e : List Char} (hg : Gap g) (h : Spells vs w)
    (hg' : Gap g') (he : Closing e) : Spells [.array vs] ('[' :: (g ++ (w ++ (g' ++ e))))
  | cons {v : Constant} {vs : List Constant} {g g' w w' : List Char} (h : Spells [v] w)
    (hg : Gap g) (hg' : Gap g') (hs : Spells vs w') :
    Spells (v :: vs) (w ++ (g ++ ',' :: (g' ++ w')))

variable {v : Constant} {vs : List Constant} {a : Binary64} {q c : Char} {o : Nat}
  {s w x y cs g : List Char} {ts e : List Token} {t : Token} {l : Lexeme}
  {ls used after : List Lexeme}

/-! ### Literals have tokens -/

theorem cut_quoted (h : Quoted q s w) (hq : q = '"' ∨ q = '\'') :
    Cut (q :: (w ++ [q])) [.string (String.ofList s)] := by
  have hescape : q ≠ '\\' := by rcases hq with rfl | rfl <;> decide
  have hchunk := Chunk.quoted (y := []) hq fun z ↦ h.quotedItems_eq hescape z
  rw [h.unescape_eq] at hchunk
  exact hchunk.cut

theorem Numeral.cut (h : Numeral a w) : Cut w [.number a] := by
  cases h with
  | whole hne hx =>
    obtain ⟨c, x, rfl⟩ := List.exists_cons_of_ne_nil hne
    rw [List.forall_mem_cons] at hx
    exact (Chunk.whole (y := []) hx.1 hx.2 stops_nil rfl).cut
  | fraction hne hx hfne hf =>
    obtain ⟨c, x, rfl⟩ := List.exists_cons_of_ne_nil hne
    rw [List.forall_mem_cons] at hx
    exact (Chunk.fraction (y := []) hx.1 hx.2 hf hfne stops_nil).cut

theorem Word.isName {x : String} (h : Word v x) : IsName x ∧ scalar? (.ident x) = some v := by
  cases h <;> exact ⟨⟨_, _, rfl, rfl, List.all_eq_true.mp rfl, by decide⟩, rfl⟩

theorem Closing.exists_cut (h : Closing w) : ∃ e ∈ closings, Cut w e ∧ Clear w ∧ e ≠ [] := by
  have hbracket : Cut [']'] [.mark .bracketClose] := (Chunk.mark (y := []) .bracketClose).cut
  cases h with
  | bracket =>
    exact ⟨_, by simp [closings], hbracket, ⟨stops_cons.mpr rfl, stops_cons.mpr rfl⟩, by simp⟩
  | comma hg =>
    exact ⟨_, by simp [closings], hbracket.mark_cons .comma hg (by simp),
      ⟨stops_cons.mpr rfl, stops_cons.mpr rfl⟩, by simp⟩

/-- The tokens of a literal are read as it. -/
theorem Spells.exists_tokens (h : Spells vs w) : ∃ ts, Cut w ts ∧ Reads vs ts := by
  induction h with
  | word h => exact ⟨_, IsWord.cut h.isName.1, .scalar h.isName.2⟩
  | number h => exact ⟨_, h.cut, .scalar rfl⟩
  | negative hg h => exact ⟨_, h.cut.mark_cons .minus hg (by simp), .negative⟩
  | string hq h => exact ⟨_, cut_quoted h hq, .scalar rfl⟩
  | empty hg =>
    exact ⟨_, (Chunk.mark (y := []) .bracketClose).cut.mark_cons .bracketOpen hg (by simp), .empty⟩
  | array hg _ hg' he ih =>
    obtain ⟨ts, hcut, hread⟩ := ih
    obtain ⟨e, he, hcut', hclear, hne⟩ := he.exists_cut
    have hinner := hcut.append_gap hread.ne_nil hg' hcut' hne hclear
    exact ⟨_, hinner.mark_cons .bracketOpen hg (by simp [hne]), .array hread he⟩
  | cons _ hg hg' _ ih ihs =>
    obtain ⟨ts, hcut, hread⟩ := ih
    obtain ⟨us, hcut', hread'⟩ := ihs
    have hrest := hcut'.mark_cons .comma hg' hread'.ne_nil
    exact ⟨_, hcut.append_gap hread.ne_nil hg hrest (by simp)
      ⟨stops_cons.mpr rfl, stops_cons.mpr rfl⟩, .cons hread hread'⟩

/-! ### Tokens of literals stand in literals -/

theorem wordToken_cases (cs : List Char) :
    (∃ k, wordToken cs = .keyword k) ∨ wordToken cs = .ident (String.ofList cs) := by
  unfold wordToken
  cases Keyword.ofText? (String.ofList cs) with
  | some k => exact .inl ⟨k, rfl⟩
  | none => exact .inr rfl

/-- What is written where a token stands. -/
theorem token_cases (h : Chunk c x y (some t)) :
    (∃ k, t = .keyword k) ∨ t = .ident (String.ofList (c :: x)) ∨
      (∃ a, t = .number a ∧ Numeral a (c :: x)) ∨
      (∃ q s w, t = .string (String.ofList s) ∧ (q = '"' ∨ q = '\'') ∧ Quoted q s w ∧
        c :: x = q :: (w ++ [q])) ∨
      ∃ m, t = .mark m ∧ c = m.char ∧ x = [] := by
  cases h with
  | word =>
    rcases wordToken_cases (c :: x) with hk | hw
    · exact .inl hk
    · exact .inr (.inl hw)
  | whole hc hx =>
    refine .inr (.inr (.inl ⟨_, rfl, ?_⟩))
    exact .whole (List.cons_ne_nil _ _) (List.forall_mem_cons.mpr ⟨hc, hx⟩)
  | fraction hc hx hf hne =>
    refine .inr (.inr (.inl ⟨_, rfl, ?_⟩))
    exact .fraction (List.cons_ne_nil _ _) (List.forall_mem_cons.mpr ⟨hc, hx⟩) hne hf
  | quoted hq hitems =>
    have hescape : c ≠ '\\' := by rcases hq with rfl | rfl <;> decide
    obtain ⟨tail, -, hquoted⟩ := exists_quoted hescape (hitems [])
    exact .inr (.inr (.inr (.inl ⟨c, _, _, rfl, hq, hquoted, rfl⟩)))
  | mark m => exact .inr (.inr (.inr (.inr ⟨m, rfl, rfl, rfl⟩)))

theorem word_of_scalar? {x : String} (h : scalar? (.ident x) = some v) : Word v x := by
  unfold scalar? at h
  split at h <;> cases h
  · next heq => cases heq
  · next heq => cases heq
  · next heq => cases heq; exact .true
  · next heq => cases heq; exact .false
  · next heq => cases heq; exact .null
  · next heq => cases heq; exact .undefined

theorem spells_of_scalar? (h : Chunk c x y (some t)) (hv : scalar? t = some v) :
    Spells [v] (c :: x) := by
  rcases token_cases h with ⟨k, rfl⟩ | rfl | ⟨a, rfl, ha⟩ | ⟨q, s, w, rfl, hq, hs, hw⟩ | ⟨m, rfl, -⟩
  · cases hv
  · have hword := Spells.word (word_of_scalar? hv)
    rwa [String.toList_ofList] at hword
  · cases hv
    exact .number ha
  · cases hv
    rw [hw]
    exact .string hq hs
  · cases hv

theorem exists_number (h : HasTokens cs (.number a :: ts)) :
    ∃ g w rest, cs = g ++ (w ++ rest) ∧ Gap g ∧ Numeral a w ∧ HasTokens rest ts := by
  obtain ⟨g, c, x, y, rfl, hg, hp, hy⟩ := h.exists_gap
  rcases token_cases hp with ⟨k, ⟨⟩⟩ | ⟨⟨⟩⟩ | ⟨_, ⟨⟩, ha⟩ | ⟨_, _, _, ⟨⟩, -⟩ | ⟨m, ⟨⟩, -⟩
  exact ⟨g, c :: x, y, rfl, hg, ha, hy⟩

theorem exists_mark {m : Mark} (h : HasTokens cs (.mark m :: ts)) :
    ∃ g rest, cs = g ++ m.char :: rest ∧ Gap g ∧ HasTokens rest ts := by
  obtain ⟨g, c, x, y, rfl, hg, hp, hy⟩ := h.exists_gap
  rcases token_cases hp with ⟨k, ⟨⟩⟩ | ⟨⟨⟩⟩ | ⟨_, ⟨⟩, -⟩ | ⟨_, _, _, ⟨⟩, -⟩ | ⟨m, ⟨⟩, rfl, rfl⟩
  exact ⟨g, y, rfl, hg, hy⟩

theorem exists_closing (he : e ∈ closings) (h : HasTokens cs (e ++ ts)) :
    ∃ g w rest, cs = g ++ (w ++ rest) ∧ Gap g ∧ Closing w ∧ HasTokens rest ts := by
  simp only [closings, List.mem_cons, List.not_mem_nil, or_false] at he
  rcases he with rfl | rfl
  · obtain ⟨g, rest, rfl, hg, hrest⟩ := exists_mark h
    exact ⟨g, _, rest, rfl, hg, .bracket, hrest⟩
  · obtain ⟨g, rest, rfl, hg, hrest⟩ := exists_mark h
    obtain ⟨g', rest, rfl, hg', hrest'⟩ := exists_mark hrest
    exact ⟨g, _, rest, by simp [Mark.char], hg, .comma hg', hrest'⟩

/-- Where the tokens of literals are, literals stand behind a gap. -/
theorem Reads.exists_spells (h : Reads vs ts) {us : List Token} (hcs : HasTokens cs (ts ++ us)) :
    ∃ g w rest, cs = g ++ (w ++ rest) ∧ Gap g ∧ Spells vs w ∧ HasTokens rest us := by
  induction h generalizing cs us with
  | scalar hv =>
    obtain ⟨g, c, x, y, rfl, hg, hp, hy⟩ := hcs.exists_gap
    exact ⟨g, c :: x, y, rfl, hg, spells_of_scalar? hp hv, hy⟩
  | negative =>
    obtain ⟨g, rest, rfl, hg, hrest⟩ := exists_mark hcs
    obtain ⟨g', w, rest, rfl, hg', hw, hrest'⟩ := exists_number hrest
    exact ⟨g, _, rest, by simp [Mark.char], hg, .negative hg' hw, hrest'⟩
  | empty =>
    obtain ⟨g, rest, rfl, hg, hrest⟩ := exists_mark hcs
    obtain ⟨g', rest, rfl, hg', hrest'⟩ := exists_mark hrest
    exact ⟨g, _, rest, by simp [Mark.char], hg, .empty hg', hrest'⟩
  | array _ he ih =>
    rw [List.cons_append, List.append_assoc] at hcs
    obtain ⟨g, rest, rfl, hg, hrest⟩ := exists_mark hcs
    obtain ⟨g', w, rest, rfl, hg', hw, hrest'⟩ := ih hrest
    obtain ⟨g'', e, rest, rfl, hg'', he, hrest''⟩ := exists_closing he hrest'
    exact ⟨g, _, rest, by simp [Mark.char], hg, .array hg' hw hg'' he, hrest''⟩
  | cons _ _ ih ihs =>
    rw [List.append_assoc] at hcs
    obtain ⟨g, w, rest, rfl, hg, hw, hrest⟩ := ih hcs
    obtain ⟨g', rest, rfl, hg', hrest'⟩ := exists_mark hrest
    obtain ⟨g'', w', rest, rfl, hg'', hw', hrest''⟩ := ihs hrest'
    exact ⟨g, _, rest, by simp [Mark.char], hg, .cons hw hg' hg'' hw', hrest''⟩

/-! ### Values of expressions -/

theorem evaluate_eq_ok_iff_reads {expr : String} : evaluate expr = .ok v ↔
    ∃ ls, Lexed 0 expr.toList ls ∧ Reads [v] (ls.map Lexeme.token) := by
  simp only [lexed_iff]
  unfold evaluate lexemes
  cases lexemesFrom 0 expr.toList with
  | error e => simp
  | ok ls =>
    have hread : ofLexemes? ls expr.utf8ByteSize = some v ↔ Reads [v] (ls.map Lexeme.token) :=
      ofLexemes?_eq_some_iff
    simp only [Except.ok.injEq, exists_eq_left', ← hread]
    cases ofLexemes? ls expr.utf8ByteSize <;> simp

/-- An expression has a value exactly if it is a literal with this value, between gaps. -/
theorem evaluate_eq_ok_iff {expr : String} : evaluate expr = .ok v ↔
    ∃ g w e, expr.toList = g ++ (w ++ e) ∧ Gap g ∧ Spells [v] w ∧ EndGap e := by
  rw [evaluate_eq_ok_iff_reads]
  constructor
  · rintro ⟨ls, hls, hread⟩
    have htokens : HasTokens expr.toList (ls.map Lexeme.token ++ []) :=
      ⟨0, ls, hls, (List.append_nil _).symm⟩
    obtain ⟨g, w, e, htext, hg, hw, he⟩ := hread.exists_spells htokens
    exact ⟨g, w, e, htext, hg, hw, he.endGap⟩
  · rintro ⟨g, w, e, htext, hg, hw, he⟩
    obtain ⟨ts, hcut, hread⟩ := hw.exists_tokens
    obtain ⟨used, rfl, -, hlexed⟩ := hcut.makes (0 + byteLength g)
    refine ⟨used, ?_, hread⟩
    rw [htext, hg.lexed_append, hlexed _ _ he.clear]
    exact ⟨[], he.lexed _, (List.append_nil used).symm⟩

theorem Spells.evaluate_eq (h : Spells [v] w) : evaluate (String.ofList w) = .ok v :=
  evaluate_eq_ok_iff.mpr ⟨[], w, [], by simp, .nil, h, Gap.nil.endGap⟩

end Templating.Literal
