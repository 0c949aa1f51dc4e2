import Mathlib.Data.List.Forall2
import Templating.Proofs.Grammar.Inclusion
import Templating.Proofs.Node.Outlining

/-!
# Outlines of documents

Of all that a text puts into the outline of its document, only the arguments of a mixin are shown as
they are written: names are words, and paths and literal texts are quoted. So the outline shows each
node on a line of its own exactly if no argument list of a mixin goes over several lines
(`Source.outlinedByLine_iff_arguments`).
-/

namespace Templating

open Lexer Node

namespace Text

variable {s t : String}

/-- The number of line feeds in a text. -/
def lineFeeds (s : String) : Nat := s.toList.count '\n'

theorem lineFeeds_append (s t : String) : lineFeeds (s ++ t) = lineFeeds s + lineFeeds t := by
  rw [lineFeeds, String.toList_append, List.count_append]
  rfl

theorem lineFeeds_join {ss : List String} (h : ∀ s ∈ ss, lineFeeds s = 0) :
    lineFeeds (String.join ss) = 0 := by
  induction ss with
  | nil => rfl
  | cons s ss ih =>
    rw [List.forall_mem_cons] at h
    rw [String.join_cons, lineFeeds_append, h.1, ih h.2]

theorem lineFeeds_of_isName (h : IsName s) : lineFeeds s = 0 := by
  obtain ⟨c, x, hs, hc, hx, -⟩ := h
  rw [lineFeeds, List.count_eq_zero, hs]
  intro hmem
  have hword : isWordChar '\n' := by
    rcases List.mem_cons.mp hmem with rfl | hmem
    · exact isWordChar_of_isWordStart hc
    · exact hx _ hmem
  cases hword

theorem lineFeed_notMem_hexDigits (n : Nat) : '\n' ∉ hexDigits n := by
  induction n using Nat.strong_induction_on with
  | _ n ih =>
    have hdigit : ∀ d < 16, Nat.digitChar d ≠ '\n' := by decide
    rw [hexDigits, Nat.toDigits_eq_if (by decide)]
    split
    · next hlt => simp [(hdigit n hlt).symm]
    · next hle =>
      have hmod := (hdigit (n % 16) (Nat.mod_lt n (by decide))).symm
      have hdiv := ih (n / 16) (Nat.div_lt_self (by omega) (by decide))
      rw [hexDigits] at hdiv
      simp [hmod, hdiv]

/-- A line feed between quotes is written as an escape. -/
theorem lineFeed_notMem_quotedChar (c : Char) : '\n' ∉ quotedChar c := by
  have hdigits := lineFeed_notMem_hexDigits c.toNat
  unfold quotedChar codePointEscape
  split
  · decide
  split
  · decide
  split
  · decide
  split
  · decide
  next hfeed =>
    split
    · next hescaped =>
      rw [Bool.or_eq_true, decide_eq_true_eq, decide_eq_true_eq] at hescaped
      rcases hescaped with rfl | rfl <;> decide
    split
    · simp [hdigits]
    · simpa using Ne.symm hfeed

theorem lineFeeds_quoted (s : String) : lineFeeds (quoted s) = 0 := by
  rw [lineFeeds, List.count_eq_zero, quoted, String.toList_ofList]
  have hchars : '\n' ∉ s.toList.flatMap quotedChar := by
    rw [List.mem_flatMap]
    rintro ⟨c, -, hc⟩
    exact lineFeed_notMem_quotedChar c hc
  simp [hchars]

/-- The text begins with a character that is no blank. -/
def BeginsVisibly (s : String) : Prop := ∃ c rest, s.toList = c :: rest ∧ isBlank c = false

theorem BeginsVisibly.append (h : BeginsVisibly s) (t : String) : BeginsVisibly (s ++ t) := by
  obtain ⟨c, rest, hs, hc⟩ := h
  exact ⟨c, rest ++ t.toList, by rw [String.toList_append, hs, List.cons_append], hc⟩

theorem beginsVisibly_of_isName (h : IsName s) : BeginsVisibly s := by
  obtain ⟨c, x, hs, hc, -⟩ := h
  exact ⟨c, x, hs, isBlank_of_isVisible (isVisible_of_isWordChar (isWordChar_of_isWordStart hc))⟩

end Text

open Text

namespace Node

/-- The arguments of a mixin, as they are written. -/
def argumentText : Node → List Char
  | .mixin h _ => (h.args.map String.toList).getD []
  | _ => []

/-- The headline of the node begins a line, and nothing but arguments goes over several lines. -/
structure HeadsLines (n : Node) : Prop where
  begins : BeginsVisibly n.headline
  breaks : lineFeeds n.headline = n.argumentText.count '\n'

end Node

theorem headsLines_mixin {h : MixinHead} {b : Option Block} (hname : IsName h.name) :
    (Node.mixin h b).HeadsLines := by
  have hsigil : BeginsVisibly (if h.isCall then "+" else "mixin ") ∧
      lineFeeds (if h.isCall then "+" else "mixin ") = 0 := by
    cases h.isCall
    · exact ⟨⟨_, _, rfl, rfl⟩, by decide⟩
    · exact ⟨⟨_, _, rfl, rfl⟩, by decide⟩
  refine ⟨(hsigil.1.append _).append _, ?_⟩
  rw [headline, lineFeeds_append, lineFeeds_append, hsigil.2, lineFeeds_of_isName hname,
    argumentText]
  cases h.args with
  | none => rfl
  | some text =>
    have hopen : lineFeeds "(" = 0 := by decide
    have hclose : lineFeeds ")" = 0 := by decide
    simp only [lineFeeds_append, hopen, hclose, Nat.zero_add, Nat.add_zero]
    rfl

theorem Written.headsLines {file : Option Path} {n : Node} {rest : List Node}
    (h : Written file (n :: rest)) : n.HeadsLines := by
  cases h with
  | group =>
    have hword : BeginsVisibly "block" := ⟨_, _, rfl, rfl⟩
    exact ⟨hword, show lineFeeds "block" = 0 by decide⟩
  | @block name mode p inner _ hname =>
    have hblock : BeginsVisibly "block " := ⟨_, _, rfl, rfl⟩
    refine ⟨((((hblock.append _).append _).append _).append _).append _, ?_⟩
    simp only [headline, lineFeeds_append, lineFeeds_of_isName hname]
    cases mode <;> rfl
  | inherits =>
    have hextends : BeginsVisibly "extends " := ⟨_, _, rfl, rfl⟩
    refine ⟨hextends.append _, ?_⟩
    rw [headline, lineFeeds_append, lineFeeds_quoted]
    rfl
  | includes | includesWith =>
    have hinclude : BeginsVisibly "include " := ⟨_, _, rfl, rfl⟩
    refine ⟨hinclude.append _, ?_⟩
    rw [headline, lineFeeds_append, lineFeeds_quoted]
    rfl
  | @includesRaw _ us _ _ _ hus =>
    have hinclude : BeginsVisibly "include" := ⟨_, _, rfl, rfl⟩
    refine ⟨((hinclude.append _).append _).append _, ?_⟩
    have hfilters : lineFeeds (String.join (us.map fun u ↦ ":" ++ u.name)) = 0 := by
      refine lineFeeds_join fun s hs ↦ ?_
      obtain ⟨u, hu, rfl⟩ := List.mem_map.mp hs
      rw [lineFeeds_append, lineFeeds_of_isName (hus u hu).name]
      rfl
    rw [headline, lineFeeds_append, lineFeeds_append, lineFeeds_append, hfilters, lineFeeds_quoted]
    rfl
  | mixin hname | call hname => exact headsLines_mixin hname
  | filter hu =>
    have hcolon : BeginsVisibly ":" := ⟨_, _, rfl, rfl⟩
    refine ⟨hcolon.append _, ?_⟩
    rw [headline, lineFeeds_append, lineFeeds_of_isName hu.name]
    rfl
  | yield =>
    have hword : BeginsVisibly "yield" := ⟨_, _, rfl, rfl⟩
    exact ⟨hword, show lineFeeds "yield" = 0 by decide⟩
  | text =>
    have htext : BeginsVisibly "text " := ⟨_, _, rfl, rfl⟩
    refine ⟨htext.append _, ?_⟩
    rw [headline, lineFeeds_append, lineFeeds_quoted]
    rfl
  | @tag name textOnly p q inner _ hname =>
    refine ⟨(beginsVisibly_of_isName hname).append _, ?_⟩
    rw [headline, lineFeeds_append, lineFeeds_of_isName hname]
    cases textOnly
    · exact show 0 + lineFeeds "" = 0 by decide
    · exact show 0 + lineFeeds "." = 0 by decide

theorem Written.document?_eq_none {file : Option Path} {n : Node} {rest : List Node}
    (h : Written file (n :: rest)) : n.document? = none := by
  cases h <;> rfl

namespace Node

variable {ns : List Node}

/-- The outline has a line for each node. It begins with two spaces for each level of the node, and
no more blanks follow. -/
def OutlinedByLine (ns : List Node) : Prop :=
  List.Forall₂ (fun e line ↦
      ∃ c rest, line = List.replicate (2 * e.1) ' ' ++ c :: rest ∧ isBlank c = false)
    (levelledAll 0 ns) (Source.lines (outline ns).toList)

theorem count_flatMap_of_headsLines (hns : ∀ m ∈ ns, m.HeadsLines) :
    (ns.flatMap fun m ↦ m.headline.toList).count '\n' = (ns.flatMap argumentText).count '\n' := by
  induction ns with
  | nil => rfl
  | cons n ns ih =>
    rw [List.forall_mem_cons] at hns
    have hbreaks : n.headline.toList.count '\n' = n.argumentText.count '\n' := hns.1.breaks
    rw [List.flatMap_cons, List.flatMap_cons, List.count_append, List.count_append, hbreaks,
      ih hns.2]

theorem length_lines_outline_of_headsLines (hns : ∀ m ∈ listingAll ns, m.HeadsLines)
    (hlevels : (levelledAll 0 ns).map Prod.snd = listingAll ns) :
    (Source.lines (outline ns).toList).length =
      (listingAll ns).length + ((listingAll ns).flatMap argumentText).count '\n' := by
  rw [length_lines_outline, ← count_flatMap_of_headsLines hns, ← hlevels, List.length_map,
    List.flatMap_map]

theorem outlinedByLine_iff (hns : ∀ m ∈ listingAll ns, m.HeadsLines)
    (hlevels : (levelledAll 0 ns).map Prod.snd = listingAll ns) :
    OutlinedByLine ns ↔ ∀ m ∈ listingAll ns, '\n' ∉ m.argumentText := by
  constructor
  · intro h m hm hbreak
    -- As many lines as nodes leave no line for a break.
    have hlength := h.length_eq
    rw [length_lines_outline_of_headsLines hns hlevels, ← hlevels, List.length_map,
      hlevels] at hlength
    have hcount : ((listingAll ns).flatMap argumentText).count '\n' = 0 := by omega
    exact List.count_eq_zero.mp hcount (List.mem_flatMap.mpr ⟨m, hm, hbreak⟩)
  · intro h
    have hmem : ∀ e ∈ levelledAll 0 ns, e.2 ∈ listingAll ns := by
      intro e he
      rw [← hlevels]
      exact List.mem_map_of_mem he
    have hlines := lines_outline fun e he ↦ List.count_eq_zero.mp <|
      (hns e.2 (hmem e he)).breaks.trans (List.count_eq_zero.mpr (h e.2 (hmem e he)))
    rw [OutlinedByLine, hlines, List.forall₂_map_right_iff, List.forall₂_same]
    intro e he
    obtain ⟨c, rest, hc, hvisible⟩ := (hns e.2 (hmem e he)).begins
    exact ⟨c, rest ++ ['\n'], by rw [outlined, hc, List.cons_append], hvisible⟩

end Node

/-- The outline of a document has a line for each node and for each line feed in the arguments of a
mixin. So it shows the nodes line by line, each behind two spaces for each of its levels, exactly if
no arguments go over several lines. -/
theorem Source.outlinedByLine_iff_arguments {src : Source} {root : Node}
    (h : src.document = .ok root) :
    ∃ ns, root = .group ⟨ns, ⟨src.file, 1⟩⟩ ∧ ∀ ms, ms = [root] ∨ ms = ns →
      (levelledAll 0 ms).map Prod.snd = listingAll ms ∧
      (lines (outline ms).toList).length =
        (listingAll ms).length + ((listingAll ms).flatMap argumentText).count '\n' ∧
      (OutlinedByLine ms ↔ ∀ m ∈ listingAll ms, '\n' ∉ m.argumentText) := by
  obtain ⟨ns, rfl, hns⟩ := written_of_document h
  refine ⟨ns, rfl, fun ms hms ↦ ?_⟩
  have hms : Written src.file ms := by
    rcases hms with rfl | rfl
    · exact .group rfl hns .nil
    · exact hns
  have hheads : ∀ m ∈ listingAll ms, m.HeadsLines := by
    intro m hm
    obtain ⟨rest, hm⟩ := hms.exists_of_mem hm
    exact hm.headsLines
  have hlevels : (levelledAll 0 ms).map Prod.snd = listingAll ms := by
    refine map_snd_levelledAll (fun m hm ↦ ?_) 0
    obtain ⟨rest, hm⟩ := hms.exists_of_mem hm
    exact hm.document?_eq_none
  exact ⟨hlevels, length_lines_outline_of_headsLines hheads hlevels,
    Node.outlinedByLine_iff hheads hlevels⟩

/-- A table of cards with a text over two lines. -/
def tableSource : Source :=
  ⟨"prepend cards \x7b p. 'first\nsecond' +card(a, b) \x7b :wide \x7b br \x7d \x7d \x7d", none⟩

theorem Source.outlinedByLine_tableSource :
    ∃ root, tableSource.document = .ok root ∧
      outline [root] = "block\n  block cards (prepend)\n    p.\n    text \"first\\nsecond\"\n" ++
        "    +card(a, b)\n      :wide\n        br\n" ∧
      OutlinedByLine [root] := by
  have hdocument : tableSource.document.toOption.map (fun root ↦
      (outline [root], (listingAll [root]).flatMap argumentText)) =
        some ("block\n  block cards (prepend)\n    p.\n    text \"first\\nsecond\"\n" ++
          "    +card(a, b)\n      :wide\n        br\n", ['a', ',', ' ', 'b']) := by
    decide +kernel
  match h : tableSource.document with
  | .ok root =>
    rw [h] at hdocument
    obtain ⟨houtline, harguments⟩ := Prod.mk.inj (Option.some.inj hdocument)
    obtain ⟨ns, -, hroot⟩ := Source.outlinedByLine_iff_arguments h
    obtain ⟨-, -, hline⟩ := hroot [root] (.inl rfl)
    refine ⟨root, rfl, houtline, hline.mpr fun m hm hbreak ↦ ?_⟩
    have hmem : '\n' ∈ ['a', ',', ' ', 'b'] := harguments ▸ List.mem_flatMap.mpr ⟨m, hm, hbreak⟩
    revert hmem
    decide
  | .error e =>
    rw [h] at hdocument
    cases hdocument

/-- A call with arguments over two lines. -/
def cardSource : Source := ⟨"+card(a,\n b)", none⟩

/-- A document of two nodes is shown on three lines. -/
theorem Source.not_outlinedByLine_cardSource :
    ∃ root, cardSource.document = .ok root ∧ outline [root] = "block\n  +card(a,\n b)\n" ∧
      (listingAll [root]).length = 2 ∧ (lines (outline [root]).toList).length = 3 ∧
      ¬ OutlinedByLine [root] := by
  have hdocument : cardSource.document.toOption.map (fun root ↦
      (outline [root], (listingAll [root]).length, (levelledAll 0 [root]).length)) =
        some ("block\n  +card(a,\n b)\n", 2, 2) := by
    decide +kernel
  match h : cardSource.document with
  | .ok root =>
    rw [h] at hdocument
    obtain ⟨houtline, hcounts⟩ := Prod.mk.inj (Option.some.inj hdocument)
    obtain ⟨hlisting, hlevels⟩ := Prod.mk.inj hcounts
    have hlines : (lines (outline [root]).toList).length = 3 := by
      rw [show outline [root] = _ from houtline]
      decide
    refine ⟨root, rfl, houtline, hlisting, hlines, fun hline ↦ ?_⟩
    have hlength := hline.length_eq
    rw [hlines, hlevels] at hlength
    cases hlength
  | .error e =>
    rw [h] at hdocument
    cases hdocument

end Templating
