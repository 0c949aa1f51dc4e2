import Mathlib.Data.List.TakeWhile
import Templating.Text.Blank
import Templating.Token.Lexer

/-!
# What scanning takes

How far a run of characters of one kind, a number and a quoted literal go.
-/

namespace Templating.Lexer

/-! ### Runs of characters -/

/-- No character of the kind stands at the front. -/
def Stops (p : Char → Bool) (cs : List Char) : Prop := ∀ c ∈ cs.head?, p c = false

variable {p : Char → Bool} {c d q : Char} {f x y v w rest items post : List Char}

@[simp]
theorem stops_nil : Stops p [] := by simp [Stops]

@[simp]
theorem stops_cons : Stops p (c :: y) ↔ p c = false := by simp [Stops]

theorem Stops.append (h : Stops p (v ++ w)) (hpost : Stops p post) : Stops p (v ++ post) := by
  cases v with
  | nil => exact hpost
  | cons c v => exact stops_cons.mpr (stops_cons.mp h)

theorem Stops.takeWhile_append (hx : ∀ c ∈ x, p c) (hy : Stops p y) :
    (x ++ y).takeWhile p = x := by
  rw [List.takeWhile_append_of_pos hx]
  cases y with
  | nil => simp
  | cons c y => simp [stops_cons.mp hy]

theorem Stops.dropWhile_append (hx : ∀ c ∈ x, p c) (hy : Stops p y) :
    (x ++ y).dropWhile p = y := by
  rw [List.dropWhile_append_of_pos hx]
  cases y with
  | nil => rfl
  | cons c y => simp [stops_cons.mp hy]

theorem stops_dropWhile (cs : List Char) : Stops p (cs.dropWhile p) := by
  induction cs with
  | nil => exact stops_nil
  | cons c cs ih =>
    rw [List.dropWhile_cons]
    split
    · exact ih
    · next h => exact stops_cons.mpr (by simpa using h)

/-- A text is a run of characters of a kind, and what follows the run. -/
theorem exists_run (p : Char → Bool) (cs : List Char) :
    ∃ x y, cs = x ++ y ∧ (∀ c ∈ x, p c) ∧ Stops p y :=
  ⟨cs.takeWhile p, cs.dropWhile p, List.takeWhile_append_dropWhile.symm,
    fun _ hc ↦ List.mem_takeWhile_imp hc, stops_dropWhile cs⟩

/-- A run of characters that is as long as `x` is `x`. -/
theorem run_of_length (h : ((x ++ y).takeWhile p).length = x.length) :
    (∀ c ∈ x, p c) ∧ Stops p y := by
  have hsplit : (x ++ y).takeWhile p ++ (x ++ y).dropWhile p = x ++ y :=
    List.takeWhile_append_dropWhile
  obtain ⟨hx, hy⟩ := List.append_inj hsplit h
  exact ⟨fun c hc ↦ List.mem_takeWhile_imp (hx ▸ hc), hy ▸ stops_dropWhile _⟩

/-! ### Kinds of characters -/

/-- Characters of ASCII that leave a mark on paper. -/
def isVisible (c : Char) : Bool := 0x21 ≤ c.toNat && c.toNat ≤ 0x7E

theorem isBlank_of_isVisible (h : isVisible c) : Text.isBlank c = false := by
  simp only [isVisible, Bool.and_eq_true, decide_eq_true_eq] at h
  simp only [Text.isBlank, Bool.or_eq_false_iff, Bool.and_eq_false_iff, decide_eq_false_iff_not,
    beq_eq_false_iff_ne]
  omega

theorem isVisible_of_isDigit (h : isDigit c) : isVisible c := by
  simp only [isDigit, isVisible, Bool.and_eq_true, decide_eq_true_eq, Char.le_def,
    UInt32.le_iff_toNat_le] at h ⊢
  change 48 ≤ c.toNat ∧ c.toNat ≤ 57 at h
  omega

theorem isWordChar_of_isDigit (h : isDigit c) : isWordChar c := by
  simp [isWordChar, h]

theorem isWordChar_of_isWordStart (h : isWordStart c) : isWordChar c := by
  simp [isWordChar, h]

theorem isVisible_of_isWordChar (h : isWordChar c) : isVisible c := by
  simp only [isWordChar, isWordStart, Bool.or_eq_true, Bool.and_eq_true, decide_eq_true_eq,
    beq_iff_eq, Char.le_def, UInt32.le_iff_toNat_le] at h
  rcases h with ((((h | h) | rfl) | h) | rfl)
  · change 97 ≤ c.toNat ∧ c.toNat ≤ 122 at h
    simp only [isVisible, Bool.and_eq_true, decide_eq_true_eq]
    omega
  · change 65 ≤ c.toNat ∧ c.toNat ≤ 90 at h
    simp only [isVisible, Bool.and_eq_true, decide_eq_true_eq]
    omega
  · rfl
  · exact isVisible_of_isDigit h
  · rfl

theorem isVisible_char (m : Mark) : isVisible m.char := by
  cases m <;> rfl

/-! ### Numbers -/

/-- The digits of a fraction at the front. -/
def fractionDigits : List Char → List Char
  | '.' :: tail => tail.takeWhile isDigit
  | _ => []

theorem scanNumber_eq (c : Char) (rest : List Char) :
    scanNumber c rest =
      .token (.number (Binary64.ofDecimal false
          (digitsValue (c :: rest.takeWhile isDigit ++ fractionDigits (rest.dropWhile isDigit)))
          (-((fractionDigits (rest.dropWhile isDigit)).length : Int))))
        ((rest.takeWhile isDigit).length +
          if fractionDigits (rest.dropWhile isDigit) = [] then 0
          else (fractionDigits (rest.dropWhile isDigit)).length + 1) :=
  rfl

theorem scanNumber_whole (hx : ∀ d ∈ x, isDigit d) (hy : Stops isDigit y)
    (hfrac : fractionDigits y = []) :
    scanNumber c (x ++ y) =
      .token (.number (Binary64.ofDecimal false (digitsValue (c :: x)) 0)) x.length := by
  simp [scanNumber_eq, Stops.takeWhile_append hx hy, Stops.dropWhile_append hx hy, hfrac]

theorem scanNumber_fraction (hx : ∀ d ∈ x, isDigit d) (hf : ∀ d ∈ f, isDigit d) (hne : f ≠ [])
    (hy : Stops isDigit y) :
    scanNumber c (x ++ '.' :: f ++ y) =
      .token (.number (Binary64.ofDecimal false (digitsValue (c :: x ++ f)) (-(f.length : Int))))
        (x ++ '.' :: f).length := by
  have hdot : Stops isDigit ('.' :: (f ++ y)) := stops_cons.mpr rfl
  have hdigits : fractionDigits ('.' :: (f ++ y)) = f := Stops.takeWhile_append hf hy
  rw [List.append_assoc, List.cons_append, scanNumber_eq, Stops.takeWhile_append hx hdot,
    Stops.dropWhile_append hx hdot, hdigits, if_neg hne]
  simp

/-- Behind its first digit, a number is digits, or digits with a fraction. -/
theorem exists_number (rest : List Char) :
    (∃ x y, rest = x ++ y ∧ (∀ d ∈ x, isDigit d) ∧ Stops isDigit y ∧ fractionDigits y = []) ∨
      ∃ x f y, rest = x ++ '.' :: f ++ y ∧ (∀ d ∈ x, isDigit d) ∧ (∀ d ∈ f, isDigit d) ∧ f ≠ [] ∧
        Stops isDigit y := by
  obtain ⟨x, y, rfl, hx, hy⟩ := exists_run isDigit rest
  by_cases hfrac : fractionDigits y = []
  · exact .inl ⟨x, y, rfl, hx, hy, hfrac⟩
  · unfold fractionDigits at hfrac
    split at hfrac
    · next tail =>
      obtain ⟨f, z, rfl, hf, hz⟩ := exists_run isDigit tail
      rw [Stops.takeWhile_append hf hz] at hfrac
      exact .inr ⟨x, f, z, by simp, hx, hf, hfrac, hz⟩
    · exact absurd rfl hfrac

/-! ### Quoted literals -/

theorem quotedItems_escape (hc : c ≠ '\n') :
    quotedItems q ('\\' :: c :: rest) =
      ('\\' :: c :: (quotedItems q rest).1, (quotedItems q rest).2) := by
  simp [quotedItems, hc]

theorem quotedItems_close (hq : q ≠ '\\') : quotedItems q (q :: rest) = ([], true) := by
  simp [quotedItems, hq]

theorem quotedItems_plain (hc : c ≠ '\\') (hcq : c ≠ q) :
    quotedItems q (c :: rest) = (c :: (quotedItems q rest).1, (quotedItems q rest).2) := by
  simp [quotedItems, hc, hcq]

/-- A text, and how it is written between two quotes: a character stands for itself, but for the
quote and the backslash, and any character but a line feed can be written behind a backslash. -/
inductive Quoted (q : Char) : List Char → List Char → Prop
  | nil : Quoted q [] []
  | plain {c : Char} {s w : List Char} (hq : c ≠ q) (hc : c ≠ '\\') (h : Quoted q s w) :
    Quoted q (c :: s) (c :: w)
  | escape {c : Char} {s w : List Char} (hc : c ≠ '\n') (h : Quoted q s w) :
    Quoted q (escaped c :: s) ('\\' :: c :: w)

theorem Quoted.quotedItems_eq {s : List Char} (h : Quoted q s w) (hq : q ≠ '\\') (z : List Char) :
    quotedItems q (w ++ q :: z) = (w, true) := by
  induction h with
  | nil => exact quotedItems_close hq
  | plain hcq hc _ ih => rw [List.cons_append, quotedItems_plain hc hcq, ih]
  | escape hc _ ih => rw [List.cons_append, List.cons_append, quotedItems_escape hc, ih]

theorem Quoted.unescape_eq {s : List Char} (h : Quoted q s w) : unescape w = s := by
  induction h with
  | nil => rfl
  | plain _ hc _ ih =>
    rw [unescape, ih]
    exact fun _ _ h _ ↦ hc h
  | escape _ _ ih => rw [unescape, ih]

/-- The items of a closed literal stand before its closing quote, and write what they stand for. -/
theorem exists_quoted (hq : q ≠ '\\') (h : quotedItems q rest = (items, true)) :
    ∃ tail, rest = items ++ q :: tail ∧ Quoted q (unescape items) items := by
  induction rest using quotedItems.induct q generalizing items with
  | case1 => cases h
  | case2 => cases h
  | case3 tail => simp [quotedItems] at h
  | case4 c tail hc _ _ _ ih =>
    rw [quotedItems_escape hc, Prod.mk.injEq] at h
    obtain ⟨rfl, hclosed⟩ := h
    obtain ⟨z, hz, hquoted⟩ := ih (Prod.ext rfl hclosed)
    refine ⟨z, ?_, .escape hc hquoted⟩
    rw [List.cons_append, List.cons_append, ← hz]
  | case5 tail =>
    rw [quotedItems_close hq, Prod.mk.injEq] at h
    obtain ⟨rfl, -⟩ := h
    exact ⟨tail, rfl, .nil⟩
  | case6 c tail hend hmore hc _ _ _ ih =>
    have hplain : c ≠ '\\' := by
      rintro rfl
      cases tail with
      | nil => exact hend rfl rfl
      | cons d tail => exact hmore d tail rfl rfl
    rw [quotedItems_plain hplain hc, Prod.mk.injEq] at h
    obtain ⟨rfl, hclosed⟩ := h
    obtain ⟨z, hz, hquoted⟩ := ih (Prod.ext rfl hclosed)
    refine ⟨z, ?_, ?_⟩
    · rw [List.cons_append, ← hz]
    · rw [unescape]
      · exact .plain hc hplain hquoted
      · exact fun _ _ h _ ↦ hplain h

/-- The items of a closed literal are the same whatever follows its closing quote. -/
theorem quotedItems_closed (hq : q ≠ '\\') (h : quotedItems q rest = (items, true)) :
    ∃ tail, rest = items ++ q :: tail ∧ ∀ z, quotedItems q (items ++ q :: z) = (items, true) := by
  obtain ⟨tail, hrest, hquoted⟩ := exists_quoted hq h
  exact ⟨tail, hrest, hquoted.quotedItems_eq hq⟩

end Templating.Lexer
