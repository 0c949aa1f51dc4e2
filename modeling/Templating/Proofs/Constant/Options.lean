import Templating.Proofs.Constant.Spelling
import Templating.Proofs.Grammar.RoundTrip

/-!
# Literals as options

The tokens of a literal are balanced and have no comma outside of brackets, so a literal can be the
value of an option (`Literal.Spells.isValue`). When filters of a document get such options in place
of their own (`Node.withOptions`), the document is still read from its printed text. The expression
of the option is the text of the literal again, and its value is the one that was written.
-/

namespace Templating

open Lexer Grammar Grammar.Parser

namespace Literal

/-- The values that can be written: numbers in digits, perhaps with a fraction and behind a minus,
truth values, null, all texts, and arrays of such values. -/
inductive Expressible : Constant → Prop
  | bool (b : Bool) : Expressible (.bool b)
  | null : Expressible .null
  | number {a : Binary64} {w : List Char} (h : Numeral a w) : Expressible (.number a)
  | negative {a : Binary64} {w : List Char} (h : Numeral a w) : Expressible (.number a.neg)
  | string (s : String) : Expressible (.string s)
  | array {vs : List Constant} (h : ∀ v ∈ vs, Expressible v) : Expressible (.array vs)

variable {v : Constant} {vs : List Constant} {w : List Char} {ts : List Token}
  {free : Token → Bool} {t : Token}

/-! ### Every value has a literal -/

theorem exists_spells_of_forall (hne : vs ≠ []) (h : ∀ v ∈ vs, ∃ w, Spells [v] w) :
    ∃ w, Spells vs w := by
  induction vs with
  | nil => exact absurd rfl hne
  | cons v vs ih =>
    rw [List.forall_mem_cons] at h
    by_cases hvs : vs = []
    · rw [hvs]
      exact h.1
    · obtain ⟨w, hw⟩ := h.1
      obtain ⟨w', hw'⟩ := ih hvs h.2
      exact ⟨_, .cons hw .nil .nil hw'⟩

theorem Expressible.exists_spells (h : Expressible v) : ∃ w, Spells [v] w := by
  induction h with
  | bool b =>
    cases b with
    | false => exact ⟨_, .word .false⟩
    | true => exact ⟨_, .word .true⟩
  | null => exact ⟨_, .word .null⟩
  | number h => exact ⟨_, .number h⟩
  | negative h => exact ⟨_, .negative .nil h⟩
  | string s =>
    have hs := Spells.string (.inl rfl) (quoted_flatMap s.toList)
    rw [String.ofList_toList] at hs
    exact ⟨_, hs⟩
  | @array vs h ih =>
    by_cases hne : vs = []
    · subst hne
      exact ⟨_, .empty .nil⟩
    · obtain ⟨w, hw⟩ := exists_spells_of_forall hne ih
      exact ⟨_, .array .nil hw .nil .bracket⟩

theorem Spells.expressible (h : Spells vs w) : ∀ v ∈ vs, Expressible v := by
  induction h with
  | word h => cases h <;> simp [Expressible.bool, Expressible.null]
  | number h => simpa using Expressible.number h
  | negative _ h => simpa using Expressible.negative h
  | string => simpa using Expressible.string _
  | empty => simpa using (Expressible.array nofun : Expressible (.array []))
  | array _ _ _ _ ih => simpa using Expressible.array ih
  | cons _ _ _ _ ih ihs => exact List.forall_mem_cons.mpr ⟨ih _ (List.mem_singleton_self _), ihs⟩

/-! ### Literals are values of options -/

theorem notComma_of_scalar? (h : scalar? t = some v) : notComma t ∧ t.isBracket = false := by
  cases t with
  | mark m => cases h
  | _ => exact ⟨rfl, rfl⟩

/-- The tokens of literals are balanced. The commas between literals have to be free outside of
brackets, a literal by itself has none. -/
theorem Reads.balanced (h : Reads vs ts) (hfree : ∀ t, notComma t → free t)
    (hcomma : vs.length ≠ 1 → free (.mark .comma)) : Balanced free ts := by
  induction h generalizing free with
  | scalar h =>
    obtain ⟨hnot, hbracket⟩ := notComma_of_scalar? h
    exact .token (hfree _ hnot) hbracket .nil
  | negative => exact .token (hfree _ rfl) rfl <| .token (hfree _ rfl) rfl .nil
  | empty =>
    have hinner : Balanced (fun _ ↦ true) ([] : List Token) := .nil
    exact .bracket .bracket hinner .nil
  | @array vs ts e _ he ih =>
    have hitems : Balanced (fun _ ↦ true) ts := ih (fun _ _ ↦ rfl) (fun _ ↦ rfl)
    simp only [closings, List.mem_cons, List.not_mem_nil, or_false] at he
    rcases he with rfl | rfl
    · exact .bracket .bracket hitems .nil
    · have hlast : Balanced (fun _ ↦ true) [.mark .comma] := .token rfl rfl .nil
      have hnil : Balanced free [] := .nil
      have hall := Balanced.bracket .bracket (hitems.append hlast) hnil
      rwa [List.append_assoc] at hall
  | @cons v vs ts us _ hs ih ihs =>
    have hpos := List.length_pos_iff.mpr hs.values_ne_nil
    have hfreecomma : free (.mark .comma) := hcomma (by rw [List.length_cons]; omega)
    have hitem : Balanced free ts := ih hfree (fun hne ↦ absurd rfl hne)
    exact hitem.append <| .token hfreecomma rfl <| ihs hfree fun _ ↦ hfreecomma

theorem Spells.isValue (h : Spells [v] w) : IsValue w := by
  obtain ⟨ts, hcut, hread⟩ := h.exists_tokens
  exact ⟨ts, hcut, hread.ne_nil, hread.balanced (fun _ h ↦ h) fun hne ↦ absurd rfl hne⟩

end Literal

/-! ### Documents with other options -/

/-- The option is named by a word, and its expression is a literal. -/
def Attr.IsLiteral (a : Attr) : Prop :=
  ∃ x v w, IsName x ∧ Literal.Spells [v] w ∧ a = ⟨x, .expr (String.ofList w)⟩

/-- The filter with other options, which may depend on the filter. -/
def FilterUse.withOptions (f : FilterUse → List Attr) (u : FilterUse) : FilterUse :=
  { u with attrs := f u }

namespace Node

mutual

/-- The tree with other options for its filters. -/
def withOptions (f : FilterUse → List Attr) : Node → Node
  | .group ⟨ns, p⟩ => .group ⟨withOptionsAll f ns, p⟩
  | .block h ns => .block h (withOptionsAll f ns)
  | .inherits r d p => .inherits r (withOptionsDocument f d) p
  | .includes r d b p => .includes r (withOptionsDocument f d) (withOptionsBody f b) p
  | .includesRaw r d us p =>
    .includesRaw r (withOptionsDocument f d) (us.map (FilterUse.withOptions f)) p
  | .mixin h b => .mixin h (withOptionsBody f b)
  | .filter u ⟨ns, p⟩ => .filter (u.withOptions f) ⟨withOptionsAll f ns, p⟩
  | .yield p => .yield p
  | .text v p => .text v p
  | .tag h ⟨ns, p⟩ => .tag h ⟨withOptionsAll f ns, p⟩
  termination_by structural n => n

/-- The trees with other options for their filters. -/
def withOptionsAll (f : FilterUse → List Attr) : List Node → List Node
  | [] => []
  | n :: ns => withOptions f n :: withOptionsAll f ns
  termination_by structural ns => ns

/-- A loaded document with other options for its filters. -/
def withOptionsDocument (f : FilterUse → List Attr) : Option Node → Option Node
  | none => none
  | some d => some (withOptions f d)
  termination_by structural d => d

/-- A nested sequence with other options for its filters. -/
def withOptionsBody (f : FilterUse → List Attr) : Option (Body Node) → Option (Body Node)
  | none => none
  | some ⟨ns, p⟩ => some ⟨withOptionsAll f ns, p⟩
  termination_by structural b => b

end

end Node

open Node

variable {f : FilterUse → List Attr} {file : Option Path} {ns : List Node} {src : Source}

theorem Attr.IsLiteral.isWritten {a : Attr} (h : a.IsLiteral) : a.IsWritten := by
  obtain ⟨x, v, w, hx, hw, rfl⟩ := h
  refine ⟨hx, fun text htext ↦ ?_⟩
  cases htext
  rw [String.toList_ofList]
  exact hw.isValue

theorem FilterUse.IsWritten.withOptions {u : FilterUse} (h : u.IsWritten file)
    (hf : ∀ u, ∀ a ∈ f u, a ∈ u.attrs ∨ a.IsLiteral) : (u.withOptions f).IsWritten file := by
  refine ⟨h.name, fun a ha ↦ ?_, h.position⟩
  rcases hf u a ha with hold | hnew
  · exact h.attrs a hold
  · exact hnew.isWritten

theorem startsWithGroup_withOptionsAll (f : FilterUse → List Attr) (ns : List Node) :
    startsWithGroup (withOptionsAll f ns) = startsWithGroup ns := by
  cases ns with
  | nil => rfl
  | cons n ns =>
    rw [withOptionsAll]
    cases n <;> rfl

/-- Statements can be written with other options if their own options and literals are used. -/
theorem Written.withOptionsAll (h : Written file ns)
    (hf : ∀ u, ∀ a ∈ f u, a ∈ u.attrs ∨ a.IsLiteral) :
    Written file (withOptionsAll f ns) := by
  induction h with
  | nil => exact .nil
  | group hp _ _ ihinner ih => exact .group hp ihinner ih
  | block hname hp _ _ ihinner ih => exact .block hname hp ihinner ih
  | inherits hp _ ih => exact .inherits hp ih
  | includes htemplate hp hgroup _ ih =>
    exact .includes htemplate hp ((startsWithGroup_withOptionsAll f _).trans hgroup) ih
  | includesWith htemplate hp hq _ _ ihinner ih => exact .includesWith htemplate hp hq ihinner ih
  | @includesRaw path us p rest hraw hus hp hgroup _ ih =>
    refine .includesRaw ?_ ?_ hp ((startsWithGroup_withOptionsAll f _).trans hgroup) ih
    · rwa [List.isEmpty_map]
    · exact List.forall_mem_map.mpr fun u hu ↦ (hus u hu).withOptions hf
  | mixin hname hargs hp hq _ _ ihinner ih => exact .mixin hname hargs hp hq ihinner ih
  | call hname hargs hp hgroup _ ih =>
    exact .call hname hargs hp ((startsWithGroup_withOptionsAll f _).trans hgroup) ih
  | filter hu hq _ _ ihinner ih => exact .filter (hu.withOptions hf) hq ihinner ih
  | yield hp _ ih => exact .yield hp ih
  | text hp _ ih => exact .text hp ih
  | tag hname hp hq _ _ ihinner ih => exact .tag hname hp hq ihinner ih

/-- A text that is the print of statements makes a document of them. -/
theorem Written.exists_document (hns : Written src.file ns)
    (htext : src.text.toList = printedAll ns) :
    ∃ m, src.document = .ok m ∧
      m.withoutLines = (Node.group ⟨ns, ⟨src.file, 1⟩⟩).withoutLines := by
  obtain ⟨ls, hls⟩ := hns.lexable .nil 0
  rw [List.append_nil, ← htext] at hls
  obtain ⟨m, d, hm, hwithout⟩ := finds_document hns (htext ▸ Source.stands_start hls)
  have hparsed := parse_eq_ok.mpr ⟨d, hm none⟩
  exact ⟨m, Source.document_eq_ok.mpr ⟨ls, lexed_iff.mp hls, hparsed⟩, hwithout⟩

theorem exists_document_withOptions {n : Node} (h : src.document = .ok n)
    (hf : ∀ u, ∀ a ∈ f u, a ∈ u.attrs ∨ a.IsLiteral) :
    ∃ m, Source.document ⟨(n.withOptions f).print, src.file⟩ = .ok m ∧
      m.withoutLines = (n.withOptions f).withoutLines := by
  obtain ⟨ns, rfl, hns⟩ := Source.written_of_document h
  have hwritten := hns.withOptionsAll hf
  exact Written.exists_document hwritten String.toList_ofList

namespace Literal

/-- A value that can be written survives the template syntax. It has literals. Filters anywhere in a
document can have literals as options, and the document is read again with them. A list of options
with literals is read with their texts as expressions, whatever gaps are between the tokens. And an
expression has a value exactly if it is a literal of this value between gaps. -/
theorem survives_reading :
    (∀ v, Expressible v ↔ ∃ w, Spells [v] w) ∧
      (∀ {src : Source} {n : Node} {f : FilterUse → List Attr}, src.document = .ok n →
        (∀ u, ∀ a ∈ f u, a ∈ u.attrs ∨ a.IsLiteral) →
        ∃ m, Source.document ⟨(n.withOptions f).print, src.file⟩ = .ok m ∧
          m.withoutLines = (n.withOptions f).withoutLines) ∧
      (∀ {src : Source} {c : Cursor} {as : List Attr} {g w z : List Char}, OptionsText as w →
        Gap g → src.Stands ('(' :: (g ++ (w ++ z))) c →
        (attrs src).Finds c fun bs d ↦ bs = as ∧ src.Stands z d) ∧
      (∀ {x : String} {v : Constant} {g g' w : List Char}, IsName x → Gap g → Gap g' →
        Spells [v] w →
        OptionText ⟨x, .expr (String.ofList w)⟩ (x.toList ++ (g ++ '=' :: (g' ++ w))) ∧
          evaluate (String.ofList w) = .ok v) ∧
      ∀ expr v, evaluate expr = .ok v ↔
        ∃ g w e, expr.toList = g ++ (w ++ e) ∧ Gap g ∧ Spells [v] w ∧ EndGap e := by
  refine ⟨fun v ↦ ⟨Expressible.exists_spells, ?_⟩, exists_document_withOptions, ?_, ?_,
    fun expr v ↦ evaluate_eq_ok_iff⟩
  · rintro ⟨w, hw⟩
    exact hw.expressible v (List.mem_singleton_self v)
  · intro src c as g w z has hg hc
    refine (has.finds hg hc).imp ?_
    exact fun bs d ⟨hbs, hd, _⟩ ↦ ⟨hbs, hd⟩
  · intro x v g g' w hx hg hg' hw
    exact ⟨.expr hx hw.isValue hg hg', hw.evaluate_eq⟩

/-- A nested array as a literal, with marks and slashes in a text, a comment and a comma at the
end. -/
def pointText : List Char := "[-1.5, // 1\n 'a,]\\'//', [],]".toList

/-- The array. -/
def pointValue : Constant :=
  .array [.number (Binary64.ofDecimal false 15 (-1)).neg, .string "a,]'//", .array []]

theorem spells_pointText : Spells [pointValue] pointText := by
  have hnumber : Numeral (.ofDecimal false 15 (-1)) ['1', '.', '5'] :=
    .fraction (x := ['1']) (f := ['5']) (by simp) (by simp [isDigit]) (by simp)
      (by simp [isDigit])
  have hcomment : Gap " // 1\n ".toList :=
    .blank rfl <| .comment (x := [' ', '1']) (by decide) <| .blank rfl .nil
  have htext : Quoted '\'' "a,]'//".toList "a,]\\'//".toList :=
    .plain (by decide) (by decide) <| .plain (by decide) (by decide) <|
      .plain (by decide) (by decide) <| .escape (c := '\'') (by decide) <|
      .plain (by decide) (by decide) <| .plain (by decide) (by decide) .nil
  have hblank : Gap [' '] := .blank rfl .nil
  have hlast := Spells.cons (.string (.inr rfl) htext) .nil hblank (.empty .nil)
  have hitems := Spells.cons (.negative .nil hnumber) .nil hcomment hlast
  exact .array .nil hitems .nil (.comma .nil)

/-- A filter and the filter of a file. -/
def pointSource : Source :=
  ⟨":note(all) \x7b 'x' \x7d\ninclude:upper \"part.txt\"", some ⟨"/point.tmpl"⟩⟩

/-- The options of a filter, and the literal as one more. -/
def withPoint (u : FilterUse) : List Attr := u.attrs ++ [⟨"by", .expr (String.ofList pointText)⟩]

/-- The document with these options, printed. -/
def pointPrinted : String :=
  ":note(all, by=[-1.5, // 1\n 'a,]\\'//', [],]) \x7b\n\"x\"\n\x7d\n" ++
    "include:upper(by=[-1.5, // 1\n 'a,]\\'//', [],]) \"part.txt\"\n"

/-- Options with gaps around the tokens. -/
def pointOptions : Source := ⟨"( by // name\n= [-1.5, // 1\n 'a,]\\'//', [],] ,\n)", none⟩

theorem exists_document_point : ∃ n, pointSource.document = .ok n ∧
    (n.withOptions withPoint).print = pointPrinted := by
  have h : pointSource.document.toOption.map (fun n ↦ (n.withOptions withPoint).print) =
      some pointPrinted := by
    decide +kernel
  cases hn : pointSource.document with
  | ok n =>
    rw [hn] at h
    exact ⟨n, rfl, Option.some.inj h⟩
  | error e =>
    rw [hn] at h
    cases h

theorem stands_pointOptions : ∃ c, pointOptions.Stands pointOptions.text.toList c := by
  have h : (lexemes pointOptions.text).toOption.isSome := by decide +kernel
  cases hls : lexemes pointOptions.text with
  | ok ls => exact ⟨_, Source.stands_start (lexed_iff.mpr hls)⟩
  | error e =>
    rw [hls] at h
    cases h

theorem survives_reading_point :
    ∃ n m c, pointSource.document = .ok n ∧
      Source.document ⟨(n.withOptions withPoint).print, pointSource.file⟩ = .ok m ∧
      m.withoutLines = (n.withOptions withPoint).withoutLines ∧
      (n.withOptions withPoint).print = pointPrinted ∧
      ((attrs pointOptions).Finds c fun as _ ↦ as = [⟨"by", .expr (String.ofList pointText)⟩]) ∧
      evaluate (String.ofList pointText) = .ok pointValue := by
  obtain ⟨-, hdocument, hlist, hoption, -⟩ := survives_reading
  have hname : IsName "by" := ⟨'b', ['y'], rfl, rfl, List.all_eq_true.mp rfl, by decide⟩
  have hadded : ∀ u, ∀ a ∈ withPoint u, a ∈ u.attrs ∨ a.IsLiteral := by
    intro u a ha
    rw [withPoint, List.mem_append, List.mem_singleton] at ha
    exact ha.imp_right fun ha ↦ ⟨_, _, _, hname, spells_pointText, ha⟩
  obtain ⟨n, hn, hprint⟩ := exists_document_point
  obtain ⟨m, hm, hwithout⟩ := hdocument hn hadded
  have hblank : Gap [' '] := .blank rfl .nil
  have hcomment : Gap " // name\n".toList :=
    .blank rfl <| .comment (x := " name".toList) (by decide) .nil
  obtain ⟨hby, hfolded⟩ := hoption hname hcomment hblank spells_pointText
  obtain ⟨c, hc⟩ := stands_pointOptions
  have hfinds := hlist (z := []) (.trailing hby hblank (.blank (c := '\n') rfl .nil)) hblank hc
  exact ⟨n, m, c, hn, hm, hwithout, hprint, hfinds.imp fun _ _ h ↦ h.1, hfolded⟩

end Literal

end Templating
