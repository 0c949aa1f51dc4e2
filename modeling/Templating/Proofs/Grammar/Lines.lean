import Templating.Proofs.Grammar.Statements

/-!
# Lines

The line of a place is found in a table of line starts, and the bytes of a line by cutting the text
into lines. Of a place before something that is no line end the two tell the same
(`Source.standsIn_lineOf`): the line is counted from the line feeds before the place, and what is
shown of it begins behind a line feed and goes beyond the place. So reports about a node of a
document show the line of its first token (`Source.lines_agree`).
-/

namespace Templating.Source

open Lexer Grammar Node

variable {src : Source} {offset n o : Nat} {ns : List Nat} {c : Char} {pre post v w cs : List Char}

/-! ### Counting lines -/

/-- In an ascending list, searching counts the numbers up to the one searched for. -/
theorem search_eq (h : ns.Pairwise (· < ·)) :
    (match search n ns with
      | .ok i => i + 1
      | .error i => i) = (ns.takeWhile (· ≤ n)).length := by
  induction ns with
  | nil => rfl
  | cons m ns ih =>
    obtain ⟨hm, hns⟩ := List.pairwise_cons.mp h
    rcases Nat.lt_trichotomy m n with hlt | rfl | hgt
    · have hstep := ih hns
      simp only [search] at hstep ⊢
      rw [List.takeWhile_cons_of_pos (by simpa using hlt),
        List.takeWhile_cons_of_pos (by simpa using Nat.le_of_lt hlt), List.length_cons,
        List.length_cons, List.getElem?_cons_succ, ← hstep]
      by_cases hfound : ns[(ns.takeWhile (· < n)).length]? = some n
      · simp [hfound]
      · simp [hfound]
    · have hstop : ns.takeWhile (· ≤ m) = [] := by
        cases ns with
        | nil => rfl
        | cons k ns => exact List.takeWhile_cons_of_neg (by simpa using hm k List.mem_cons_self)
      simp [search, hstop]
    · simp [search, List.takeWhile_cons_of_neg, Nat.not_lt_of_gt hgt, Nat.not_le_of_gt hgt,
        Nat.ne_of_gt hgt]

theorem lineStartsFrom_append (o : Nat) (pre post : List Char) :
    lineStartsFrom o (pre ++ post) =
      lineStartsFrom o pre ++ lineStartsFrom (o + byteLength pre) post := by
  induction pre generalizing o with
  | nil => rfl
  | cons c pre ih =>
    simp only [List.cons_append, lineStartsFrom, byteLength, ih, Nat.add_assoc]
    split <;> rfl

theorem length_lineStartsFrom (o : Nat) (cs : List Char) :
    (lineStartsFrom o cs).length = cs.count '\n' := by
  induction cs generalizing o with
  | nil => rfl
  | cons c cs ih =>
    simp only [lineStartsFrom, List.count_cons, beq_iff_eq]
    split
    · rw [List.length_cons, ih]
    · exact ih _

/-- A line begins behind its line feed, and not behind the text. -/
theorem bounds_of_mem_lineStartsFrom (h : n ∈ lineStartsFrom o cs) :
    o < n ∧ n ≤ o + byteLength cs := by
  induction cs generalizing o with
  | nil => cases h
  | cons c cs ih =>
    have hpos := c.utf8Size_pos
    simp only [lineStartsFrom] at h
    rw [byteLength]
    split at h
    · rcases List.mem_cons.mp h with rfl | h
      · omega
      · have := ih h
        omega
    · have := ih h
      omega

theorem pairwise_lineStartsFrom (o : Nat) (cs : List Char) :
    (lineStartsFrom o cs).Pairwise (· < ·) := by
  induction cs generalizing o with
  | nil => exact .nil
  | cons c cs ih =>
    simp only [lineStartsFrom]
    split
    · exact .cons (fun n hn ↦ (bounds_of_mem_lineStartsFrom hn).1) (ih _)
    · exact ih _

/-- The line of a place is one more than the number of line feeds before it. -/
theorem lineOf_eq (htext : src.text.toList = pre ++ post) :
    src.lineOf (byteLength pre) = 1 + pre.count '\n' := by
  have hpairwise : src.lineStarts.Pairwise (· < ·) :=
    .cons (fun n hn ↦ (bounds_of_mem_lineStartsFrom hn).1) (pairwise_lineStartsFrom _ _)
  have hbefore : ∀ n ∈ 0 :: lineStartsFrom 0 pre, n ≤ byteLength pre := by
    refine List.forall_mem_cons.mpr ⟨Nat.zero_le _, fun n hn ↦ ?_⟩
    simpa using (bounds_of_mem_lineStartsFrom hn).2
  have hbehind : (lineStartsFrom (byteLength pre) post).takeWhile (· ≤ byteLength pre) = [] := by
    rcases hstarts : lineStartsFrom (byteLength pre) post with _ | ⟨n, ns⟩
    · rfl
    · have hn : n ∈ lineStartsFrom (byteLength pre) post := hstarts ▸ List.mem_cons_self
      exact List.takeWhile_cons_of_neg (by simpa using (bounds_of_mem_lineStartsFrom hn).1)
  calc src.lineOf (byteLength pre)
      = (src.lineStarts.takeWhile (· ≤ byteLength pre)).length := search_eq hpairwise
    _ = (0 :: lineStartsFrom 0 pre).length := by
      rw [lineStarts, htext, lineStartsFrom_append, Nat.zero_add, ← List.cons_append,
        List.takeWhile_append_of_pos (by simpa using hbefore), hbehind, List.append_nil]
    _ = 1 + pre.count '\n' := by
      rw [List.length_cons, length_lineStartsFrom, Nat.add_comm]

/-! ### Cutting lines -/

theorem lines_append_lineFeed (hv : '\n' ∉ v) (cs : List Char) :
    lines (v ++ '\n' :: cs) = (v ++ ['\n']) :: lines cs := by
  induction v with
  | nil => rw [List.nil_append, lines, if_pos rfl, List.nil_append]
  | cons c v ih =>
    rw [List.mem_cons, not_or] at hv
    rw [List.cons_append, lines, if_neg (Ne.symm hv.1), ih hv.2]
    rfl

theorem lines_of_not_mem (hv : '\n' ∉ v) (hne : v ≠ []) : lines v = [v] := by
  induction v with
  | nil => exact absurd rfl hne
  | cons c v ih =>
    rw [List.mem_cons, not_or] at hv
    rw [lines, if_neg (Ne.symm hv.1)]
    cases v with
    | nil => rfl
    | cons d v => rw [ih hv.2 nofun]

theorem trimLine_append_lineFeed (v : List Char) : trimLine (v ++ ['\n']) = trimLine v := by
  simp [trimLine]

/-- Nothing is trimmed before a character that ends no line. -/
theorem trimLine_append (hc : c ≠ '\n' ∧ c ≠ '\r') (v w : List Char) :
    trimLine (v ++ c :: w) = v ++ c :: trimLine w := by
  simp only [trimLine, List.reverse_append, List.reverse_cons, List.append_assoc,
    List.dropWhile_append]
  split
  · next h => simp_all [List.isEmpty_iff]
  · simp

theorem exists_trimLine (v : List Char) : ∃ w, v = trimLine v ++ w := by
  have hsuffix := List.dropWhile_suffix (l := v.reverse) fun c ↦ c = '\n' || c = '\r'
  obtain ⟨w, hw⟩ := hsuffix
  refine ⟨w.reverse, ?_⟩
  rw [trimLine, ← List.reverse_append, hw, List.reverse_reverse]

/-- The first line of a text, without its end, goes beyond all characters that end no line. -/
theorem exists_first_line (hc : c ≠ '\n' ∧ c ≠ '\r') (hv : '\n' ∉ v) (cs : List Char) :
    ∃ l rest content after, lines (v ++ c :: cs) = l :: rest ∧ trimLine l = content ∧
      v ++ c :: cs = content ++ after ∧ byteLength v < byteLength content ∧ '\n' ∉ content := by
  obtain ⟨x, y, rfl, hx, hy⟩ := exists_run (fun d ↦ decide (d ≠ '\n')) cs
  have hnot : '\n' ∉ v ++ c :: x := by
    have hx : '\n' ∉ x := fun hmem ↦ by simpa using hx _ hmem
    simp [hv, hx, hc.1.symm]
  obtain ⟨l, rest, hlines, htrim⟩ : ∃ l rest, lines (v ++ c :: (x ++ y)) = l :: rest ∧
      trimLine l = trimLine (v ++ c :: x) := by
    cases y with
    | nil => exact ⟨_, [], by rw [List.append_nil, lines_of_not_mem hnot (by simp)], rfl⟩
    | cons d y =>
      obtain rfl : d = '\n' := by simpa using hy
      refine ⟨_, lines y, ?_, trimLine_append_lineFeed _⟩
      rw [← List.cons_append, ← List.append_assoc, lines_append_lineFeed hnot]
  obtain ⟨w, hw⟩ := exists_trimLine x
  refine ⟨l, rest, v ++ c :: trimLine x, w ++ y, hlines, ?_, ?_, ?_, ?_⟩
  · rw [htrim, trimLine_append hc]
  · conv_lhs => rw [hw]
    simp
  · have hpos := c.utf8Size_pos
    simp only [byteLength_append, byteLength]
    omega
  · rw [hw] at hnot
    simp only [List.mem_append, List.mem_cons, not_or] at hnot ⊢
    exact ⟨hnot.1, hnot.2.1, hnot.2.2.1⟩

/-- Of the line of a place before a character that ends no line more than the end is left, and a
line feed stands before it. -/
theorem lineSpanFrom_eq (start : Nat) (pre cs : List Char) (hc : c ≠ '\n' ∧ c ≠ '\r') :
    ∃ before content after, pre ++ c :: cs = before ++ (content ++ after) ∧
      lineSpanFrom start (1 + pre.count '\n') (lines (pre ++ c :: cs)) =
        ⟨start + byteLength before, start + byteLength before + byteLength content⟩ ∧
      byteLength before ≤ byteLength pre ∧
      byteLength pre < byteLength before + byteLength content ∧
      (∀ d ∈ before.getLast?, d = '\n') ∧ '\n' ∉ content := by
  -- The lines before the place are taken one by one.
  induction hcount : pre.count '\n' generalizing start pre with
  | zero =>
    have hpre : '\n' ∉ pre := List.count_eq_zero.mp hcount
    obtain ⟨l, rest, content, after, hlines, rfl, htext, hlt, hnot⟩ := exists_first_line hc hpre cs
    refine ⟨[], trimLine l, after, htext, ?_, Nat.zero_le _, by simpa [byteLength] using hlt,
      nofun, hnot⟩
    rw [hlines]
    rfl
  | succ k ih =>
    obtain ⟨v, w, rfl, hv, hw⟩ := exists_run (fun d ↦ decide (d ≠ '\n')) pre
    have hv : '\n' ∉ v := fun hmem ↦ by simpa using hv _ hmem
    cases w with
    | nil => simp [List.count_eq_zero.mpr hv] at hcount
    | cons d w =>
      obtain rfl : d = '\n' := by simpa using hw
      have hcount : w.count '\n' = k := by simpa [List.count_eq_zero.mpr hv] using hcount
      obtain ⟨before, content, after, htext, hspan, hle, hlt, hlast, hnot⟩ :=
        ih (start + byteLength (v ++ ['\n'])) w hcount
      refine ⟨v ++ '\n' :: before, content, after, by simp [htext], ?_, ?_, ?_, ?_, hnot⟩
      · have hnext : lineSpanFrom start (1 + (k + 1)) ((v ++ ['\n']) :: lines (w ++ c :: cs)) =
            lineSpanFrom (start + byteLength (v ++ ['\n'])) (1 + k) (lines (w ++ c :: cs)) := by
          rw [Nat.add_comm 1, Nat.add_comm 1]
          rfl
        rw [List.append_assoc, List.cons_append, lines_append_lineFeed hv, hnext, hspan,
          List.append_cons v '\n' before, byteLength_append (v ++ ['\n']), ← Nat.add_assoc]
      · simp only [byteLength_append, byteLength]
        omega
      · simp only [byteLength_append, byteLength]
        omega
      · cases before with
        | nil => simp
        | cons d before =>
          intro e he
          rw [List.getLast?_append_cons, List.getLast?_cons_cons] at he
          exact hlast e he

/-- Where a place stands in the text: on which line it is counted, and which bytes are shown of
that line. -/
structure StandsIn (src : Source) (offset line : Nat) : Prop where
  counted : ∃ pre post, src.text.toList = pre ++ post ∧ offset = byteLength pre ∧
    line = 1 + pre.count '\n'
  shown : ∃ before content after, src.text.toList = before ++ (content ++ after) ∧
    lineSpan src.text line = ⟨byteLength before, byteLength before + byteLength content⟩ ∧
    byteLength before ≤ offset ∧ offset < byteLength before + byteLength content ∧
    (∀ c ∈ before.getLast?, c = '\n') ∧ '\n' ∉ content

theorem standsIn_lineOf (htext : src.text.toList = pre ++ c :: cs) (hc : c ≠ '\n' ∧ c ≠ '\r') :
    src.StandsIn (byteLength pre) (src.lineOf (byteLength pre)) := by
  rw [lineOf_eq htext]
  refine ⟨⟨pre, c :: cs, htext, rfl, rfl⟩, ?_⟩
  obtain ⟨before, content, after, hsplit, hspan, hle, hlt, hlast, hnot⟩ :=
    lineSpanFrom_eq 0 pre cs hc
  refine ⟨before, content, after, htext.trans hsplit, ?_, hle, hlt, hlast, hnot⟩
  rw [lineSpan, htext, hspan, Nat.zero_add]

/-- A token begins with a character that ends no line. -/
theorem standsIn_of_mem {ls : List Lexeme} {l : Lexeme} (h : Lexer.lexemes src.text = .ok ls)
    (hl : l ∈ ls) : src.StandsIn l.span.start (src.lineOf l.span.start) := by
  obtain ⟨before, after, rfl⟩ := List.append_of_mem hl
  obtain ⟨x, y, htext, hstart, hy, hfirst⟩ := (lexed_iff.mpr h).exists_start
  cases y with
  | nil => cases hy
  | cons c y =>
    have hspace := isSpace_of_isVisible (hfirst c rfl).1
    rw [hstart, Nat.zero_add]
    refine standsIn_lineOf htext ⟨?_, ?_⟩
    · rintro rfl
      cases hspace
    · rintro rfl
      cases hspace

/-- In the document of a text each node stands on the line on which its first token is counted, a
body where its statement stands, and what is shown of that line has the token in it. -/
theorem lines_agree {root : Node} (h : src.document = .ok root) :
    ∃ ls ns firsts, Lexer.lexemes src.text = .ok ls ∧ root = .group ⟨ns, ⟨src.file, 1⟩⟩ ∧
      Forms ls ns firsts ∧
      List.Forall₂ (fun m first ↦ m.position.file = src.file ∧
        (∀ b ∈ m.nestedBlock, b.position = m.position) ∧
        src.StandsIn first.span.start m.position.line) (listingAll ns) firsts := by
  obtain ⟨ls, ns, firsts, hls, rfl, hforms, hstands⟩ := forms_of_document h
  refine ⟨ls, ns, firsts, hls, rfl, hforms, ?_⟩
  refine List.forall₂_iff_zip.mpr ⟨hstands.length_eq, fun {m first} hmem ↦ ?_⟩
  have hm := (List.forall₂_iff_zip.mp hstands).2 hmem
  have hfirst : first ∈ ls := hforms.sublist.subset (List.of_mem_zip hmem).2
  rw [hm.position]
  exact ⟨rfl, hm.position ▸ hm.body, standsIn_of_mem hls hfirst⟩

/-- A text with all kinds of line ends, and with comments and tokens over several lines. -/
def linedSource : Source :=
  ⟨"// top\r\n\r\ndiv \x7b\r\n  'a\nb' yield // end\n\n  +card(x,\n y)\r\n\x7d\nblock b \x7b \x7d",
    some ⟨"/lined.tmpl"⟩⟩

theorem lines_agree_linedSource :
    ∃ root, linedSource.document = .ok root ∧
      root.listing.map (fun m ↦ m.position.line) = [1, 3, 4, 5, 7, 10] ∧
      ∃ ls ns firsts, Lexer.lexemes linedSource.text = .ok ls ∧
        root = .group ⟨ns, ⟨linedSource.file, 1⟩⟩ ∧ Forms ls ns firsts ∧
        List.Forall₂ (fun m first ↦ m.position.file = linedSource.file ∧
          (∀ b ∈ m.nestedBlock, b.position = m.position) ∧
          linedSource.StandsIn first.span.start m.position.line) (listingAll ns) firsts := by
  have hlines : linedSource.document.toOption.map
      (fun root ↦ root.listing.map fun m ↦ m.position.line) = some [1, 3, 4, 5, 7, 10] := by
    decide +kernel
  match h : linedSource.document with
  | .ok root =>
    rw [h] at hlines
    exact ⟨root, rfl, Option.some.inj hlines, lines_agree h⟩
  | .error e =>
    rw [h] at hlines
    cases hlines

end Templating.Source
