import Mathlib.Data.List.Basic
import Mathlib.Tactic.ByContra
import Templating.Proofs.Token.Scanning

/-!
# Chunks of text

What lexing takes at a place, told without computing it (`Lexer.Chunk`). The chunk depends on the
characters that are taken and, behind them, only on whether a word or a number could go on
(`Lexer.Clear`): a token is taken again when other text follows it (`Lexer.Chunk.token_append`), and
a gap when the same character follows it (`Lexer.Chunk.gap_append`).
-/

namespace Templating.Lexer

/-- What lexing takes at a place: the character `c` and the text `x`, before the text `y`. It is a
token, or blanks or a comment. -/
inductive Chunk : Char → List Char → List Char → Option Token → Prop
  | space {c : Char} {x y : List Char} (hc : isSpace c) (hx : ∀ d ∈ x, isSpace d)
    (hy : Stops isSpace y) : Chunk c x y none
  | comment {x y : List Char} (hx : ∀ d ∈ x, decide (d ≠ '\n'))
    (hy : Stops (fun d ↦ decide (d ≠ '\n')) y) : Chunk '/' ('/' :: x) y none
  | word {c : Char} {x y : List Char} (hc : isWordStart c) (hx : ∀ d ∈ x, isWordChar d)
    (hy : Stops isWordChar y) : Chunk c x y (some (wordToken (c :: x)))
  | whole {c : Char} {x y : List Char} (hc : isDigit c) (hx : ∀ d ∈ x, isDigit d)
    (hy : Stops isDigit y) (hnone : fractionDigits y = []) :
    Chunk c x y (some (.number (Binary64.ofDecimal false (digitsValue (c :: x)) 0)))
  | fraction {c : Char} {x f y : List Char} (hc : isDigit c) (hx : ∀ d ∈ x, isDigit d)
    (hf : ∀ d ∈ f, isDigit d) (hne : f ≠ []) (hy : Stops isDigit y) :
    Chunk c (x ++ '.' :: f) y
      (some (.number (Binary64.ofDecimal false (digitsValue (c :: x ++ f)) (-(f.length : Int)))))
  | quoted {q : Char} {items y : List Char} (hq : q = '"' ∨ q = '\'')
    (h : ∀ z, quotedItems q (items ++ q :: z) = (items, true)) :
    Chunk q (items ++ [q]) y (some (.string (String.ofList (unescape items))))
  | mark {y : List Char} (m : Mark) : Chunk m.char [] y (some (.mark m))

variable {c d : Char} {x y v w rest post : List Char} {o : Option Token} {t : Token}

/-! ### Chunks are what is scanned -/

theorem isSpace_of_isVisible (h : isVisible c) : isSpace c = false := by
  by_contra hspace
  simp only [isSpace, Bool.not_eq_false, Bool.or_eq_true, beq_iff_eq] at hspace
  rcases hspace with (((rfl | rfl) | rfl) | rfl) <;> cases h

theorem isWordStart_of_isDigit (h : isDigit c) : isWordStart c = false := by
  by_contra hstart
  simp only [isDigit, isWordStart, Bool.not_eq_false, Bool.or_eq_true, Bool.and_eq_true,
    decide_eq_true_eq, beq_iff_eq, Char.le_def, UInt32.le_iff_toNat_le] at h hstart
  change 48 ≤ c.toNat ∧ c.toNat ≤ 57 at h
  rcases hstart with ((⟨hstart, -⟩ | ⟨hstart, -⟩) | rfl)
  · change 97 ≤ c.toNat at hstart
    omega
  · change 65 ≤ c.toNat at hstart
    omega
  · exact absurd h (by decide)

theorem char_of_ofChar? {m : Mark} (h : Mark.ofChar? c = some m) : m.char = c := by
  unfold Mark.ofChar? at h
  simpa using List.find?_some h

theorem scan_quote {q : Char} (hq : q = '"' ∨ q = '\'') {items : List Char} {closed : Bool}
    (h : quotedItems q rest = (items, closed)) :
    scan q rest =
      if closed then .token (.string (String.ofList (unescape items))) (items.length + 1)
      else .bad items.length := by
  have hkind : ¬ isSpace q ∧ ¬ isWordStart q ∧ ¬ isDigit q ∧ (q = '"' || q = '\'') = true := by
    rcases hq with rfl | rfl <;> decide
  unfold scan
  rw [if_neg hkind.1, if_neg hkind.2.1, if_neg hkind.2.2.1, if_pos hkind.2.2.2, h]
  cases closed <;> rfl

/-- The chunk at a place is scanned there. -/
theorem Chunk.scan_eq (h : Chunk c x y o) :
    scan c (x ++ y) = o.elim (.gap x.length) (.token · x.length) := by
  cases h with
  | space hc hx hy => simp [scan, hc, Stops.takeWhile_append hx hy]
  | @comment x _ hx hy =>
    change Scan.gap (1 + ((x ++ y).takeWhile fun d ↦ decide (d ≠ '\n')).length) = _
    rw [Stops.takeWhile_append hx hy, Nat.add_comm]
    rfl
  | word hc hx hy =>
    have hspace := isSpace_of_isVisible (isVisible_of_isWordChar (isWordChar_of_isWordStart hc))
    simp [scan, hspace, hc, Stops.takeWhile_append hx hy]
  | whole hc hx hy hnone =>
    have hspace := isSpace_of_isVisible (isVisible_of_isDigit hc)
    have hstart := isWordStart_of_isDigit hc
    simp [scan, hspace, hstart, hc, scanNumber_whole hx hy hnone]
  | fraction hc hx hf hne hy =>
    have hspace := isSpace_of_isVisible (isVisible_of_isDigit hc)
    have hstart := isWordStart_of_isDigit hc
    simp only [scan, hspace, hstart, hc, scanNumber_fraction hx hf hne hy]
    rfl
  | quoted hq h =>
    rw [List.append_assoc, List.singleton_append, scan_quote hq (h y)]
    simp
  | mark m => cases m <;> rfl

/-- At every place a chunk stands, or nothing that lexing takes. -/
theorem exists_chunk (c : Char) (rest : List Char) :
    (∃ x y o, rest = x ++ y ∧ Chunk c x y o) ∨ ∃ more, scan c rest = .bad more := by
  by_cases hspace : isSpace c
  · obtain ⟨x, y, rfl, hx, hy⟩ := exists_run isSpace rest
    exact .inl ⟨x, y, _, rfl, .space hspace hx hy⟩
  by_cases hstart : isWordStart c
  · obtain ⟨x, y, rfl, hx, hy⟩ := exists_run isWordChar rest
    exact .inl ⟨x, y, _, rfl, .word hstart hx hy⟩
  by_cases hdigit : isDigit c
  · rcases exists_number rest with ⟨x, y, rfl, hx, hy, hnone⟩ | ⟨x, f, y, rfl, hx, hf, hne, hy⟩
    · exact .inl ⟨x, y, _, rfl, .whole hdigit hx hy hnone⟩
    · exact .inl ⟨_, y, _, rfl, .fraction hdigit hx hf hne hy⟩
  by_cases hquote : c = '"' ∨ c = '\''
  · match h : quotedItems c rest with
    | (items, true) =>
      have hc : c ≠ '\\' := by rcases hquote with rfl | rfl <;> decide
      obtain ⟨y, rfl, hall⟩ := quotedItems_closed hc h
      exact .inl ⟨items ++ [c], y, _, by simp, .quoted hquote hall⟩
    | (items, false) => exact .inr ⟨_, scan_quote hquote h⟩
  cases hmark : Mark.ofChar? c with
  | some m =>
    obtain rfl := char_of_ofChar? hmark
    exact .inl ⟨[], rest, _, rfl, .mark m⟩
  | none =>
    by_cases hslash : c = '/' ∧ ∃ tail, rest = '/' :: tail
    · obtain ⟨rfl, tail, rfl⟩ := hslash
      obtain ⟨x, y, rfl, hx, hy⟩ := exists_run (fun d ↦ decide (d ≠ '\n')) tail
      exact .inl ⟨_, y, _, rfl, .comment hx hy⟩
    · refine .inr ⟨0, ?_⟩
      have hquote' : ¬ ((c = '"' || c = '\'') = true) := by simpa using hquote
      unfold scan
      rw [if_neg hspace, if_neg hstart, if_neg hdigit, if_neg hquote']
      split
      · next m _ hm => cases hmark.symm.trans hm
      · next tail _ => exact if_neg fun hc ↦ hslash ⟨hc, tail, rfl⟩
      · rfl

/-! ### Chunks are local -/

/-- No word and no number goes on here. -/
def Clear (cs : List Char) : Prop := Stops isWordChar cs ∧ Stops (· == '.') cs

theorem Clear.stops_isDigit (h : Clear post) : Stops isDigit post := by
  intro c hc
  have hword := h.1 c hc
  by_contra hdigit
  rw [isWordChar_of_isDigit (by simpa using hdigit)] at hword
  cases hword

theorem fractionDigits_append (h : fractionDigits (v ++ w) = []) (hpost : Clear post) :
    fractionDigits (v ++ post) = [] := by
  unfold fractionDigits
  split
  · next tail htail =>
    cases v with
    | nil =>
      obtain rfl : post = '.' :: tail := htail
      exact absurd (stops_cons.mp hpost.2) (by decide)
    | cons d v =>
      obtain ⟨rfl, rfl⟩ := List.cons.inj htail
      have hstop : Stops isDigit (v ++ w) :=
        (run_of_length (x := []) (congrArg List.length h)).2
      exact Stops.takeWhile_append (x := []) (by simp) (hstop.append hpost.stops_isDigit)
  · rfl

theorem Chunk.token_append (h : Chunk c x (v ++ w) (some t)) (hpost : Clear post) :
    Chunk c x (v ++ post) (some t) := by
  cases h with
  | word hc hx hy => exact .word hc hx (hy.append hpost.1)
  | whole hc hx hy hnone =>
    exact .whole hc hx (hy.append hpost.stops_isDigit) (fractionDigits_append hnone hpost)
  | fraction hc hx hf hne hy => exact .fraction hc hx hf hne (hy.append hpost.stops_isDigit)
  | quoted hq hall => exact .quoted hq hall
  | mark m => exact .mark m

theorem Chunk.gap_append (h : Chunk c x (d :: w) none) : Chunk c x (d :: post) none := by
  cases h with
  | space hc hx hy => exact .space hc hx (stops_cons.mpr (stops_cons.mp hy))
  | comment hx hy => exact .comment hx (stops_cons.mpr (stops_cons.mp hy))

theorem Chunk.first_of_token (h : Chunk c x y (some t)) : isVisible c ∧ c ≠ '/' := by
  cases h with
  | word hc =>
    refine ⟨isVisible_of_isWordChar (isWordChar_of_isWordStart hc), ?_⟩
    rintro rfl
    cases hc
  | whole hc =>
    refine ⟨isVisible_of_isDigit hc, ?_⟩
    rintro rfl
    cases hc
  | fraction hc =>
    refine ⟨isVisible_of_isDigit hc, ?_⟩
    rintro rfl
    cases hc
  | quoted hq => rcases hq with rfl | rfl <;> exact ⟨rfl, by decide⟩
  | mark m => cases m <;> exact ⟨rfl, by decide⟩

theorem Chunk.last_of_token (h : Chunk c x y (some t)) : ∀ d ∈ (c :: x).getLast?, isVisible d := by
  intro d hd
  cases h with
  | word hc hx =>
    rcases List.mem_cons.mp (List.mem_of_getLast? hd) with rfl | hd
    · exact isVisible_of_isWordChar (isWordChar_of_isWordStart hc)
    · exact isVisible_of_isWordChar (hx d hd)
  | whole hc hx =>
    rcases List.mem_cons.mp (List.mem_of_getLast? hd) with rfl | hd
    · exact isVisible_of_isDigit hc
    · exact isVisible_of_isDigit (hx d hd)
  | @fraction _ x f _ _ _ hf hne =>
    rw [← List.cons_append, List.getLast?_append_cons, ← List.singleton_append,
      List.getLast?_append_of_ne_nil _ hne] at hd
    exact isVisible_of_isDigit (hf d (List.mem_of_getLast? hd))
  | @quoted _ items _ hq =>
    rw [← List.cons_append, List.getLast?_concat] at hd
    obtain rfl := Option.some.inj hd
    rcases hq with rfl | rfl <;> rfl
  | mark m =>
    cases hd
    exact isVisible_char m

end Templating.Lexer
