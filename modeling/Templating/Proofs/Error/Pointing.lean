import Templating.Document
import Templating.Error.Report
import Templating.Proofs.Grammar.Failures
import Templating.Proofs.Grammar.Lines
import Templating.Proofs.Token.Tiling

/-!
# Where reports point

Faults and lines tell their place in bytes, and drawings take the same numbers for places of
characters. So what a report points at is the piece of the text that the error is about exactly if
no character up to the end of that piece takes more than one byte
(`TemplateError.reports_characters_iff`).
-/

namespace Templating

open Lexer Grammar

variable {src : Source} {x v w : List Char} {s : Span} {file text : String}

/-! ### Bytes and characters -/

theorem length_le_byteLength (x : List Char) : x.length ≤ byteLength x := by
  induction x with
  | nil => exact Nat.le_refl 0
  | cons c x ih =>
    have hpos := c.utf8Size_pos
    rw [List.length_cons, byteLength]
    omega

theorem byteLength_eq_length_iff : byteLength x = x.length ↔ ∀ c ∈ x, c.utf8Size = 1 := by
  induction x with
  | nil => simp [byteLength]
  | cons c x ih =>
    have hpos := c.utf8Size_pos
    have hle := length_le_byteLength x
    rw [List.forall_mem_cons, ← ih, List.length_cons, byteLength]
    omega

/-- Counted in bytes, the span is the piece `v` behind `x`. -/
def Span.CountsBytes (s : Span) (x v : List Char) : Prop :=
  s = ⟨byteLength x, byteLength x + byteLength v⟩

/-- Counted in characters, the span is the piece `v` behind `x`. -/
def Span.CountsCharacters (s : Span) (x v : List Char) : Prop := s = ⟨x.length, x.length + v.length⟩

theorem Span.CountsBytes.countsCharacters_iff (h : s.CountsBytes x v) :
    s.CountsCharacters x v ↔ ∀ c ∈ x ++ v, c.utf8Size = 1 := by
  subst h
  rw [CountsCharacters, Span.mk.injEq, List.forall_mem_append, ← byteLength_eq_length_iff,
    ← byteLength_eq_length_iff]
  omega

/-! ### Spans of faults -/

/-- The span is a piece of the text, counted in bytes, or it ends before it begins. -/
def Span.IsPieceOrReversed (s : Span) (text : String) : Prop :=
  s.stop < s.start ∨ ∃ x v w, text.toList = x ++ (v ++ w) ∧ s.CountsBytes x v

/-- At the end of a text the span ahead runs backward over whatever stands behind the last token. -/
theorem isPieceOrReversed_end {ls : List Lexeme} {c : Cursor} {used : List Lexeme}
    (hls : Lexed 0 src.text.toList ls) (hc : (Cursor.start ls src.size).Takes used c)
    (hrest : c.rest = []) : c.span.IsPieceOrReversed src.text := by
  have hused : ls = used := by simpa [hrest] using hc.eq_append
  have hspan : c.span = ⟨src.size, c.stop⟩ := by
    unfold Cursor.span
    rw [hrest]
    exact congrArg (Span.mk · c.stop) hc.length_eq
  have hstop : c.stop ≤ src.size := by
    cases hlast : used.getLast? with
    | none =>
      obtain rfl := List.getLast?_eq_none_iff.mp hlast
      cases hc
      exact Nat.le_refl _
    | some l =>
      obtain ⟨before, after, hbefore⟩ := List.append_of_mem (List.mem_of_getLast? hlast)
      obtain ⟨x, v, w, htext, -, htaken⟩ := (hused.trans hbefore ▸ hls).exists_taken
      rw [hc.stop_eq l hlast, htaken, src.size_eq, htext, byteLength_append, byteLength_append]
      dsimp only
      omega
  rcases Nat.lt_or_eq_of_le hstop with hlt | heq
  · exact .inl (by rw [hspan]; exact hlt)
  · refine .inr ⟨src.text.toList, [], [], by simp, ?_⟩
    rw [hspan, heq, src.size_eq]
    rfl

theorem isPieceOrReversed_of_placed {ls : List Lexeme} {f : Failure}
    (hls : Lexed 0 src.text.toList ls) (h : Placed (.start ls src.size) f) :
    f.span.IsPieceOrReversed src.text := by
  have htoken {c : Cursor} {used rest : List Lexeme} {l : Lexeme}
      (hc : (Cursor.start ls src.size).Takes used c) (hrest : c.rest = l :: rest) :
      l.span.IsPieceOrReversed src.text := by
    rw [hc.eq_append, hrest] at hls
    obtain ⟨x, v, w, htext, -, hspan⟩ := hls.exists_taken
    rw [Nat.zero_add] at hspan
    exact .inr ⟨x, v, w, htext, hspan⟩
  cases h with
  | @ahead c _ hc =>
    obtain ⟨used, hc⟩ := hc
    cases hrest : c.rest with
    | nil => exact isPieceOrReversed_end hls hc hrest
    | cons l rest =>
      have hspan : c.span = l.span := by rw [Cursor.span, hrest]
      rw [hspan]
      exact htoken hc hrest
  | behind hc hrest =>
    obtain ⟨used, hc⟩ := hc
    exact htoken hc hrest
  | @statement c d used hc hd hne =>
    obtain ⟨before, hc⟩ := hc
    obtain ⟨l, used, rfl⟩ := List.exists_cons_of_ne_nil hne
    have hrest : c.rest = l :: (used ++ d.rest) := hd.rest_eq
    rw [hc.eq_append, hrest] at hls
    obtain ⟨x, v, w, htext, hstart, hstop, -⟩ := hls.exists_recut
    obtain ⟨m, hm⟩ := Option.ne_none_iff_exists'.mp (mt List.getLast?_eq_none_iff.mp hne)
    rw [Nat.zero_add] at hstart hstop
    refine .inr ⟨x, v, w, htext, ?_⟩
    have hbegin : c.span.start = byteLength x := by rw [Cursor.span, hrest, ← hstart]
    rw [Span.CountsBytes, Cursor.spanTo, hbegin, hd.stop_eq m hm, hstop m hm]

/-- The error of a text that makes no document has one fault. -/
theorem Source.exists_fault {e : TemplateError} (h : src.document = .error e) :
    ∃ fault, e = .malformed src [fault] [] ∧ fault.span.IsPieceOrReversed src.text := by
  unfold Source.document Source.tokens Source.documentOf Source.lexemes at h
  cases hls : Lexer.lexemes src.text with
  | error r =>
    rw [hls] at h
    cases h
    obtain ⟨x, v, w, -, htext, hspan, -⟩ := exists_lexed_of_error hls
    rw [Nat.zero_add] at hspan
    exact ⟨_, rfl, .inr ⟨x, v, w, htext, hspan⟩⟩
  | ok ls =>
    rw [hls] at h
    cases hparse : parse ls src with
    | error f =>
      simp only [Except.mapError, hparse] at h
      cases h
      exact ⟨_, rfl, isPieceOrReversed_of_placed (lexed_iff.mpr hls) (placed_of_parse hparse)⟩
    | ok n => simp [Except.mapError, hparse] at h

/-! ### Lines -/

theorem Source.flatten_lines (cs : List Char) : (lines cs).flatten = cs := by
  induction cs with
  | nil => rfl
  | cons c cs ih =>
    rw [lines]
    split
    · rw [List.flatten_cons, ih, List.singleton_append]
    · cases hlines : lines cs with
      | nil =>
        rw [hlines] at ih
        rw [← ih]
        rfl
      | cons l rest =>
        rw [hlines] at ih
        rw [← ih]
        rfl

/-- The piece `v` behind `x` is a line without its end; a line that is not there is taken for
nothing at the start of the text. -/
def Source.IsLine (text : String) (line : Nat) (x v : List Char) : Prop :=
  (∃ before l after, lines text.toList = before ++ l :: after ∧ line = before.length + 1 ∧
      x = before.flatten ∧ v = trimLine l) ∨
    (line = 0 ∨ (lines text.toList).length < line) ∧ x = [] ∧ v = []

theorem Source.lineSpanFrom_append (start : Nat) (before : List (List Char)) (l : List Char)
    (after : List (List Char)) :
    lineSpanFrom start (before.length + 1) (before ++ l :: after) =
      ⟨start + byteLength before.flatten,
        start + byteLength before.flatten + byteLength (trimLine l)⟩ := by
  induction before generalizing start with
  | nil => rfl
  | cons l' before ih =>
    rw [List.length_cons, List.cons_append, List.flatten_cons, byteLength_append, ← Nat.add_assoc]
    exact ih _

theorem Source.lineSpanFrom_of_length_lt {start line : Nat} {ls : List (List Char)}
    (h : line = 0 ∨ ls.length < line) : lineSpanFrom start line ls = ⟨0, 0⟩ := by
  induction ls generalizing start line with
  | nil => rcases line with _ | _ | line <;> rfl
  | cons l ls ih =>
    match line with
    | 0 => rfl
    | 1 => simp at h
    | line + 2 => exact ih (.inr (by simpa using h))

theorem Source.exists_isLine (text : String) (line : Nat) :
    ∃ x v w, text.toList = x ++ (v ++ w) ∧ IsLine text line x v ∧
      (lineSpan text line).CountsBytes x v := by
  by_cases hline : line = 0 ∨ (lines text.toList).length < line
  · exact ⟨[], [], text.toList, rfl, .inr ⟨hline, rfl, rfl⟩, lineSpanFrom_of_length_lt hline⟩
  · rw [not_or, Nat.not_lt] at hline
    obtain ⟨k, rfl⟩ := Nat.exists_eq_succ_of_ne_zero hline.1
    have hk : k < (lines text.toList).length := hline.2
    obtain ⟨before, l, after, hlines, rfl⟩ : ∃ before l after,
        lines text.toList = before ++ l :: after ∧ before.length = k :=
      ⟨(lines text.toList).take k, (lines text.toList)[k], (lines text.toList).drop (k + 1),
        by rw [← List.drop_eq_getElem_cons hk, List.take_append_drop],
        List.length_take_of_le (Nat.le_of_lt hk)⟩
    obtain ⟨w, hw⟩ := exists_trimLine l
    refine ⟨before.flatten, trimLine l, w ++ after.flatten, ?_,
      .inl ⟨before, l, after, hlines, rfl, rfl, rfl⟩, ?_⟩
    · rw [← flatten_lines text.toList, hlines, List.flatten_append, List.flatten_cons]
      conv_lhs => rw [hw]
      simp
    · rw [Span.CountsBytes, lineSpan, hlines, lineSpanFrom_append, Nat.zero_add]

/-! ### Reports -/

/-- The report draws the span of a text. Where the span is a piece of the text counted in bytes,
the same piece is drawn exactly if each character up to its end takes one byte. -/
structure Report.Shows (r : Report) (file text : String) (s : Span) : Prop where
  drawn : ∃ headline label, r = .drawn headline (Drawing.ofSpan? file text s label)
  characters : ∀ x v w, text.toList = x ++ (v ++ w) → s.CountsBytes x v →
    (s.CountsCharacters x v ↔ ∀ c ∈ x ++ v, c.utf8Size = 1)

theorem exists_shows {message label : String} (h : s.start ≤ s.stop) :
    ∃ r, Report.ofSpan file text s message label = .ok r ∧ r.Shows file text s := by
  refine ⟨.drawn ("Error: " ++ message) (Drawing.ofSpan? file text s label), ?_, ⟨_, _, rfl⟩,
    fun x v w _ hs ↦ hs.countsCharacters_iff⟩
  rw [Report.ofSpan, if_neg (Nat.not_lt.mpr h)]

/-- One reversed span is enough for faults not to be reported. -/
theorem mapM_report (src : Source) (faults : List SyntaxError) :
    (∃ fault ∈ faults, fault.span.stop < fault.span.start) ∧
        (faults.mapM fun fault ↦ fault.report src) = .error .reversedSpan ∨
      ∃ rs, (faults.mapM fun fault ↦ fault.report src) = .ok rs ∧
        List.Forall₂ (fun fault r ↦ r.Shows (Position.fileText src.file) src.text fault.span)
          faults rs := by
  induction faults with
  | nil => exact .inr ⟨[], rfl, .nil⟩
  | cons fault faults ih =>
    rw [List.mapM_cons]
    by_cases hreversed : fault.span.stop < fault.span.start
    · refine .inl ⟨⟨fault, List.mem_cons_self, hreversed⟩, ?_⟩
      have herror : fault.report src = .error .reversedSpan := if_pos hreversed
      rw [herror]
      rfl
    · obtain ⟨r, hr, hshows⟩ : ∃ r, fault.report src = .ok r ∧
          r.Shows (Position.fileText src.file) src.text fault.span :=
        exists_shows (Nat.not_lt.mp hreversed)
      rw [hr]
      rcases ih with ⟨⟨fault', hmem, hlt⟩, herror⟩ | ⟨rs, hrs, hall⟩
      · refine .inl ⟨⟨fault', List.mem_cons_of_mem _ hmem, hlt⟩, ?_⟩
        rw [herror]
        rfl
      · refine .inr ⟨r :: rs, ?_, .cons hshows hall⟩
        rw [hrs]
        rfl

/-- Reports draw the spans of faults, which are pieces of the text counted in bytes, and otherwise
the line of a position. Both are drawn as if they were counted in characters. -/
theorem TemplateError.reports_characters_iff (e : TemplateError) (source : String) :
    (∀ src faults trace, e = .malformed src faults trace →
      (∃ fault ∈ faults, fault.span.stop < fault.span.start) ∧
          e.reports source = .error .reversedSpan ∨
        ∃ rs, e.reports source = .ok rs ∧
          List.Forall₂ (fun fault r ↦ r.Shows (Position.fileText src.file) src.text fault.span)
            faults rs) ∧
    (∀ src, Source.document src = .error e → ∃ fault, e = .malformed src [fault] [] ∧
      fault.span.IsPieceOrReversed src.text) ∧
    ∀ p, e.position? = some p → ∃ x v w r, source.toList = x ++ (v ++ w) ∧
      Source.IsLine source p.line x v ∧ (Source.lineSpan source p.line).CountsBytes x v ∧
      e.reports source = .ok [r] ∧
      r.Shows (Position.fileText p.file) source (Source.lineSpan source p.line) := by
  refine ⟨?_, fun src h ↦ Source.exists_fault h, fun p hp ↦ ?_⟩
  · rintro src faults trace rfl
    exact mapM_report src faults
  · obtain ⟨x, v, w, htext, hline, hbytes⟩ := Source.exists_isLine source p.line
    have hle : (Source.lineSpan source p.line).start ≤ (Source.lineSpan source p.line).stop := by
      rw [hbytes]
      exact Nat.le_add_right ..
    obtain ⟨r, hr, hshows⟩ : ∃ r, Report.ofSpan (Position.fileText p.file) source
          (Source.lineSpan source p.line) e.headline e.headline = .ok r ∧
        r.Shows (Position.fileText p.file) source (Source.lineSpan source p.line) :=
      exists_shows hle
    refine ⟨x, v, w, r, htext, hline, hbytes, ?_, hshows⟩
    unfold reports
    split
    · cases hp
    · rw [hp]
      dsimp only
      rw [hr]
      rfl

/-- A text with a character on its second line that starts no token. -/
def tildeSource : Source := ⟨"br\n ~ p", some ⟨"/br.tmpl"⟩⟩

theorem Source.document_tildeSource :
    tildeSource.document = .error (.malformed tildeSource [⟨⟨4, 5⟩, .badCharacter "~"⟩] []) := by
  have htokens : tildeSource.tokens =
      .error (.malformed tildeSource [⟨⟨4, 5⟩, .badCharacter "~"⟩] []) := by
    decide +kernel
  rw [document, htokens]

theorem TemplateError.reports_characters_iff_tildeSource :
    ∃ x v r, Span.CountsBytes ⟨4, 5⟩ x v ∧ Span.CountsCharacters ⟨4, 5⟩ x v ∧
      (malformed tildeSource [⟨⟨4, 5⟩, .badCharacter "~"⟩] []).reports "" = .ok [r] ∧
      r.Shows "/br.tmpl" tildeSource.text ⟨4, 5⟩ := by
  obtain ⟨hreports, hdocument, -⟩ := TemplateError.reports_characters_iff
    (malformed tildeSource [⟨⟨4, 5⟩, .badCharacter "~"⟩] []) ""
  obtain ⟨fault, hfault, hspan⟩ := hdocument tildeSource Source.document_tildeSource
  obtain ⟨-, herrors, -⟩ := malformed.inj hfault
  obtain rfl := (List.cons.inj herrors).1
  rcases hspan with hreversed | ⟨x, v, w, htext, hbytes⟩
  · exact absurd hreversed (by decide)
  rcases hreports _ _ _ rfl with ⟨⟨fault, hmem, hreversed⟩, -⟩ | ⟨rs, hrs, hshows⟩
  · obtain rfl := List.mem_singleton.mp hmem
    exact absurd hreversed (by decide)
  cases hshows with
  | cons hshows hnil =>
    cases hnil
    refine ⟨x, v, _, hbytes, (hshows.characters x v w htext hbytes).mpr fun c hc ↦ ?_, hrs, hshows⟩
    have hall : tildeSource.text.toList.all fun c ↦ c.utf8Size == 1 := by decide
    rw [htext, ← List.append_assoc] at hall
    simpa using List.all_eq_true.mp hall c (List.mem_append_left w hc)

/-- The same behind a letter of two bytes. -/
def accentSource : Source := ⟨"'é' ~", none⟩

def accentBefore : List Char := ['\'', 'é', '\'', ' ']

/-- The fifth character is wrong, and the report points at the sixth column. -/
theorem TemplateError.not_countsCharacters_accentSource :
    accentSource.document = .error (.malformed accentSource [⟨⟨5, 6⟩, .badCharacter "~"⟩] []) ∧
      accentSource.text.toList = accentBefore ++ (['~'] ++ []) ∧
      Span.CountsBytes ⟨5, 6⟩ accentBefore ['~'] ∧
      ¬ Span.CountsCharacters ⟨5, 6⟩ accentBefore ['~'] ∧
      ((malformed accentSource [⟨⟨5, 6⟩, .badCharacter "~"⟩] []).reports "").toOption.map
        (fun rs ↦ rs.map fun r ↦ r.drawing.map Drawing.column) = some [some 6] := by
  have htokens : accentSource.tokens =
      .error (.malformed accentSource [⟨⟨5, 6⟩, .badCharacter "~"⟩] []) := by
    decide +kernel
  refine ⟨by rw [Source.document, htokens], by decide, rfl, by unfold Span.CountsCharacters; decide,
    by decide +kernel⟩

end Templating
