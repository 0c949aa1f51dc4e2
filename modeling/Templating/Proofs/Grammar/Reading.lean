import Templating.Node.Printing
import Templating.Proofs.Grammar.Results
import Templating.Proofs.Grammar.Standing

/-!
# Reading printed tokens

Before a printed mark, word or text stands its token, and the parser of the token takes it.
-/

namespace Templating

open Lexer Grammar Grammar.Parser

/-! ### Quoted text -/

theorem quoted_flatMap (s : List Char) : Quoted '"' s (s.flatMap quotedLetter) := by
  induction s with
  | nil => exact .nil
  | cons c s ih =>
    rw [List.flatMap_cons, quotedLetter]
    split
    · next hc =>
      have hself : escaped c = c := by rcases hc with rfl | rfl <;> rfl
      have hline : c ≠ '\n' := by rcases hc with rfl | rfl <;> decide
      have hescape := Quoted.escape hline ih
      rwa [hself] at hescape
    · next hc =>
      rw [not_or] at hc
      exact .plain hc.1 hc.2 ih

theorem chunk_printedText (s : String) (y : List Char) :
    Chunk '"' (s.toList.flatMap quotedLetter ++ ['"']) y (some (.string s)) := by
  have hquoted := quoted_flatMap s.toList
  have h := Chunk.quoted (y := y) (.inl rfl) (hquoted.quotedItems_eq (by decide))
  rwa [hquoted.unescape_eq, String.ofList_toList] at h

/-! ### Texts that have tokens -/

/-- Nothing in the text ends lexing. -/
def Lexable (cs : List Char) : Prop := ∀ o, ∃ ls, Lexed o cs ls

namespace Lexable

variable {cs w v x : List Char} {ch : Char} {t : Token} {ts : List Token}

theorem nil : Lexable [] := fun _ ↦ ⟨[], .nil⟩

theorem token (h : Lexable cs) (hp : Chunk ch x cs (some t)) : Lexable (ch :: (x ++ cs)) := by
  intro o
  obtain ⟨ls, hls⟩ := h (o + byteLength (ch :: x))
  exact ⟨_, .token hp hls⟩

theorem blank (h : Lexable cs) (hch : isSpace ch) : Lexable (ch :: cs) := by
  intro o
  obtain ⟨ls, hls⟩ := h (o + ch.utf8Size)
  exact ⟨ls, (lexed_blank hch).mpr hls⟩

theorem space (h : Lexable cs) : Lexable (' ' :: cs) := h.blank rfl

theorem newline (h : Lexable cs) : Lexable ('\n' :: cs) := h.blank rfl

theorem mark (h : Lexable cs) (m : Mark) : Lexable (m.char :: cs) := h.token (x := []) (.mark m)

theorem word (h : Lexable cs) (hw : IsWord w t) (hcs : Stops isWordChar cs) :
    Lexable (w ++ cs) := by
  obtain ⟨ch, x, rfl, hch, hx, -⟩ := hw
  exact h.token (.word hch hx hcs)

theorem text (h : Lexable cs) (value : String) : Lexable (printedText value ++ cs) :=
  h.token (chunk_printedText value cs)

theorem cut (h : Lexable cs) (hv : Cut v ts) (hcs : Clear cs) : Lexable (v ++ cs) := by
  intro o
  obtain ⟨used, -, -, hlexed⟩ := hv.makes o
  obtain ⟨ls, hls⟩ := h (o + byteLength v)
  exact ⟨used ++ ls, (hlexed cs _ hcs).mpr ⟨ls, hls, rfl⟩⟩

end Lexable

/-! ### Single tokens -/

namespace Source.Stands

variable {src : Source} {c : Cursor} {cs w x : List Char} {t : Token} {m : Mark}

theorem token {ch : Char} (h : src.Stands (ch :: (x ++ cs)) c) (hp : Chunk ch x cs (some t)) :
    ∃ l rest, c.rest = l :: rest ∧ l.token = t ∧ src.Stands cs (c.next l) := by
  obtain ⟨pre, h⟩ := h
  obtain ⟨l, rest, hrest, hl, hnext, -⟩ := h.token hp
  exact ⟨l, rest, hrest, hl, _, hnext⟩

theorem word (h : src.Stands (w ++ cs) c) (hw : IsWord w t) (hcs : Stops isWordChar cs) :
    ∃ l rest, c.rest = l :: rest ∧ l.token = t ∧ src.Stands cs (c.next l) := by
  obtain ⟨ch, x, rfl, hch, hx, rfl⟩ := hw
  exact h.token (.word hch hx hcs)

theorem token?_mark (h : src.Stands (m.char :: cs) c) : c.token? = some (.mark m) := by
  obtain ⟨l, rest, hrest, hl, -⟩ := h.token (x := []) (.mark m)
  rw [Cursor.token?, hrest, List.head?_cons, Option.map_some, hl]

theorem token?_word (h : src.Stands (w ++ cs) c) (hw : IsWord w t) (hcs : Stops isWordChar cs) :
    c.token? = some t := by
  obtain ⟨l, rest, hrest, hl, -⟩ := h.word hw hcs
  rw [Cursor.token?, hrest, List.head?_cons, Option.map_some, hl]

theorem token?_text {value : String} (h : src.Stands (printedText value ++ cs) c) :
    c.token? = some (.string value) := by
  obtain ⟨l, rest, hrest, hl, -⟩ := h.token (chunk_printedText value cs)
  rw [Cursor.token?, hrest, List.head?_cons, Option.map_some, hl]

theorem finds_mark {Q : Unit → Cursor → Prop} (h : src.Stands (m.char :: cs) c)
    (hQ : ∀ d, src.Stands cs d → d.rest.length < c.rest.length → Q () d) :
    (mark m).Finds c Q := by
  obtain ⟨l, rest, hrest, hl, hnext⟩ := h.token (x := []) (.mark m)
  exact .token hrest hl (hQ _ hnext (Cursor.length_next hrest))

theorem finds_keyword {k : Keyword} {Q : Unit → Cursor → Prop}
    (h : src.Stands (k.text.toList ++ cs) c) (hcs : Stops isWordChar cs)
    (hQ : ∀ d, src.Stands cs d → d.rest.length < c.rest.length → Q () d) :
    (keyword k).Finds c Q := by
  obtain ⟨l, rest, hrest, hl, hnext⟩ := h.word (isWord_keyword k) hcs
  exact .token hrest hl (hQ _ hnext (Cursor.length_next hrest))

theorem finds_ident {name : String} {Q : String → Cursor → Prop}
    (h : src.Stands (name.toList ++ cs) c) (hname : IsName name) (hcs : Stops isWordChar cs)
    (hQ : ∀ d, src.Stands cs d → d.rest.length < c.rest.length → Q name d) :
    ident.Finds c Q := by
  obtain ⟨l, rest, hrest, hl, hnext⟩ := h.word hname hcs
  exact .ident hrest hl (hQ _ hnext (Cursor.length_next hrest))

theorem finds_string {value : String} {Q : String → Cursor → Prop}
    (h : src.Stands (printedText value ++ cs) c)
    (hQ : ∀ d, src.Stands cs d → d.rest.length < c.rest.length → Q value d) :
    string.Finds c Q := by
  obtain ⟨l, rest, hrest, hl, hnext⟩ := h.token (chunk_printedText value cs)
  exact .string hrest hl (hQ _ hnext (Cursor.length_next hrest))

theorem finds_between {α : Type} {p : Parser α} (o cl : Mark) (post : List Char)
    {Q : α → Cursor → Prop} (h : src.Stands (o.char :: cs) c)
    (hp : ∀ d, src.Stands cs d → d.rest.length < c.rest.length →
      p.Finds d fun a e ↦ src.Stands (cl.char :: post) e ∧ e.rest.length ≤ d.rest.length ∧
        ∀ f, src.Stands post f → f.rest.length < c.rest.length → Q a f) :
    (between o cl p).Finds c Q := by
  obtain ⟨l, rest, hrest, hl, hnext⟩ := h.token (x := []) (.mark o)
  have hlt := Cursor.length_next hrest
  refine .between hrest hl <| (hp _ hnext hlt).imp fun a e ⟨he, hle, hQ⟩ ↦ ?_
  obtain ⟨m, rest', hrest', hm, hmore⟩ := he.token (x := []) (.mark cl)
  have hlt' := Cursor.length_next hrest'
  exact ⟨m, rest', hrest', hm, hQ _ hmore (by omega)⟩

end Source.Stands

end Templating
