import Templating.Proofs.Grammar.Written

/-!
# Printed statements

Lexing goes through a printed document (`Written.lexable`), and at each of its statements stands the
token that tells the kind of the statement (`Written.token?_printed`).
-/

namespace Templating

open Lexer Grammar Grammar.Parser Node

variable {file : Option Path} {post : List Char} {ns : List Node} {n : Node}

theorem stops_space : Stops isWordChar (' ' :: post) := stops_cons.mpr rfl

theorem stops_newline : Stops isWordChar ('\n' :: post) := stops_cons.mpr rfl

/-! ### Lexing printed statements -/

theorem lexable_attr {a : Attr} (ha : a.IsWritten) {m : Mark} (hm : m = .comma ∨ m = .parenClose)
    (h : Lexable (m.char :: post)) : Lexable (a.printed ++ m.char :: post) := by
  have hclear : Clear (m.char :: post) := by
    rcases hm with rfl | rfl <;> exact ⟨stops_cons.mpr rfl, stops_cons.mpr rfl⟩
  obtain ⟨name, value⟩ := a
  cases value with
  | flag => exact h.word ha.name hclear.1
  | expr text =>
    obtain ⟨ts, hcut, -⟩ := ha.value text rfl
    rw [Attr.printed, List.append_assoc, List.cons_append]
    exact ((h.cut hcut hclear).mark .equals).word ha.name (stops_cons.mpr rfl)

theorem lexable_moreAttrs {as : List Attr} (has : ∀ a ∈ as, a.IsWritten) (h : Lexable post) :
    Lexable (as.flatMap (fun a ↦ ',' :: ' ' :: a.printed) ++ ')' :: post) := by
  induction as with
  | nil => exact h.mark .parenClose
  | cons a as ih =>
    rw [List.forall_mem_cons] at has
    obtain ⟨m, rest, hm, hmore⟩ := exists_moreAttrs as post
    rw [List.flatMap_cons, List.append_assoc, hmore]
    exact (lexable_attr has.1 hm (hmore ▸ ih has.2)).space.mark .comma

theorem lexable_attrs {as : List Attr} (has : ∀ a ∈ as, a.IsWritten) (h : Lexable post) :
    Lexable (printedAttrs as ++ post) := by
  cases as with
  | nil => exact h
  | cons a as =>
    rw [List.forall_mem_cons] at has
    obtain ⟨m, rest, hm, hmore⟩ := exists_moreAttrs as post
    rw [printedAttrs, List.cons_append, List.append_assoc, List.append_assoc,
      List.singleton_append, hmore]
    exact (lexable_attr has.1 hm (hmore ▸ lexable_moreAttrs has.2 h)).mark .parenOpen

theorem stops_attrs (as : List Attr) (hpost : Stops isWordChar post) :
    Stops isWordChar (printedAttrs as ++ post) := by
  cases as with
  | nil => exact hpost
  | cons a as => exact stops_cons.mpr rfl

theorem lexable_filterUse {u : FilterUse} (hu : u.IsWritten file) (hpost : Stops isWordChar post)
    (h : Lexable post) : Lexable (u.printed ++ post) := by
  rw [FilterUse.printed, List.cons_append, List.append_assoc]
  exact ((lexable_attrs hu.attrs h).word hu.name (stops_attrs _ hpost)).mark .colon

theorem stops_filters (us : List FilterUse) (hpost : Stops isWordChar post) :
    Stops isWordChar (us.flatMap FilterUse.printed ++ post) := by
  cases us with
  | nil => exact hpost
  | cons u us => exact stops_cons.mpr rfl

theorem lexable_filters {us : List FilterUse} (hus : ∀ u ∈ us, u.IsWritten file)
    (hpost : Stops isWordChar post) (h : Lexable post) :
    Lexable (us.flatMap FilterUse.printed ++ post) := by
  induction us with
  | nil => exact h
  | cons u us ih =>
    rw [List.forall_mem_cons] at hus
    rw [List.flatMap_cons, List.append_assoc]
    exact lexable_filterUse hus.1 (stops_filters us hpost) (ih hus.2)

theorem stops_arguments (args : Option String) (hpost : Stops isWordChar post) :
    Stops isWordChar (printedArguments args ++ post) := by
  cases args with
  | none => exact hpost
  | some text => exact stops_cons.mpr rfl

theorem lexable_arguments {args : Option String} (hargs : ∀ text ∈ args, IsArguments text.toList)
    (h : Lexable post) : Lexable (printedArguments args ++ post) := by
  cases args with
  | none => exact h
  | some text =>
    obtain ⟨ts, hcut, -⟩ := hargs text rfl
    have hclear : Clear (')' :: post) := ⟨stops_cons.mpr rfl, stops_cons.mpr rfl⟩
    rw [printedArguments, List.cons_append, List.append_assoc, List.singleton_append]
    exact ((h.mark .parenClose).cut hcut hclear).mark .parenOpen

theorem lexable_braced {inner : List Char}
    (hinner : ∀ {post}, Lexable post → Lexable (inner ++ post)) (h : Lexable post) :
    Lexable (braced inner ++ post) := by
  rw [braced, List.cons_append, List.cons_append, List.append_assoc, List.singleton_append]
  exact (hinner (h.mark .braceClose)).newline.mark .braceOpen

theorem printedAll_cons_append (n : Node) (ns : List Node) (post : List Char) :
    printedAll (n :: ns) ++ post = printed n ++ '\n' :: (printedAll ns ++ post) := by
  rw [printedAll, List.append_assoc, List.cons_append]

theorem Written.lexable (h : Written file ns) (hpost : Lexable post) :
    Lexable (printedAll ns ++ post) := by
  -- Each case goes from the end to the front: what can stand before a text depends on its start.
  induction h generalizing post with
  | nil => exact hpost
  | group _ _ _ ihinner ih =>
    rw [printedAll_cons_append, printed]
    exact lexable_braced ihinner (ih hpost).newline
  | @block name mode p inner rest hname _ _ _ ihinner ih =>
    have hbody := (lexable_braced ihinner (ih hpost).newline).space
    have hnamed := (hbody.word hname stops_space).space
    have hmode := (hnamed.word (isWord_keyword mode.keyword) stops_space).space
    rw [printedAll_cons_append, printed]
    simpa using hmode.word (isWord_keyword .block) stops_space
  | inherits _ _ ih =>
    rw [printedAll_cons_append, printed, List.append_assoc, List.cons_append]
    exact ((ih hpost).newline.text _).space.word (isWord_keyword _) stops_space
  | includes _ _ _ _ ih =>
    rw [printedAll_cons_append, printed, printedBody, List.append_nil, List.append_assoc,
      List.cons_append]
    exact ((ih hpost).newline.text _).space.word (isWord_keyword _) stops_space
  | includesWith _ _ _ _ _ ihinner ih =>
    rw [printedAll_cons_append, printed, printedBody]
    simp only [List.append_assoc, List.cons_append]
    have hbody := lexable_braced ihinner (ih hpost).newline
    exact (hbody.space.text _).space.word (isWord_keyword _) stops_space
  | @includesRaw path us p rest _ hus _ _ _ ih =>
    have hpath := ((ih hpost).newline.text (Reference.unloaded path file).path).space
    have hfilters := lexable_filters hus stops_space hpath
    rw [printedAll_cons_append, printed]
    simpa using hfilters.word (isWord_keyword .includes) (stops_filters us stops_space)
  | @mixin name args isCall p q inner rest hname hargs _ _ _ _ ihinner ih =>
    have hbody := (lexable_braced ihinner (ih hpost).newline).space
    have hhead := (lexable_arguments hargs hbody).word hname (stops_arguments args stops_space)
    rw [printedAll_cons_append, printed, printedBody]
    cases isCall with
    | true => simpa using hhead.mark .plus
    | false => simpa using hhead.space.word (isWord_keyword .mixin) stops_space
  | @call name args p rest hname hargs _ _ _ ih =>
    have hargs := lexable_arguments hargs (ih hpost).newline
    rw [printedAll_cons_append, printed, printedBody]
    simpa using (hargs.word hname (stops_arguments args stops_newline)).mark .plus
  | filter hu _ _ _ ihinner ih =>
    rw [printedAll_cons_append, printed, List.append_assoc, List.cons_append]
    exact lexable_filterUse hu stops_space (lexable_braced ihinner (ih hpost).newline).space
  | yield _ _ ih =>
    rw [printedAll_cons_append, printed]
    exact (ih hpost).newline.word (isWord_keyword _) stops_newline
  | text _ _ ih =>
    rw [printedAll_cons_append, printed]
    exact (ih hpost).newline.text _
  | @tag name textOnly p q inner rest hname _ _ _ _ ihinner ih =>
    have hbody := (lexable_braced ihinner (ih hpost).newline).space
    rw [printedAll_cons_append, printed]
    cases textOnly with
    | true =>
      have hdot : Lexable ('.' :: ' ' :: _) := hbody.mark .dot
      simpa using hdot.word hname (stops_cons.mpr rfl)
    | false => simpa using hbody.word hname stops_space

/-! ### The first token of a printed statement -/

/-- The token that a statement begins with. -/
def Node.leadToken : Node → Token
  | .group _ => .mark .braceOpen
  | .block .. => .keyword .block
  | .inherits .. => .keyword .inherits
  | .includes .. => .keyword .includes
  | .includesRaw .. => .keyword .includes
  | .mixin h _ => if h.isCall then .mark .plus else .keyword .mixin
  | .filter .. => .mark .colon
  | .yield _ => .keyword .yield
  | .text value _ => .string value
  | .tag h _ => .ident h.name

variable {src : Source} {c : Cursor}

theorem Written.token?_printed (h : Written file (n :: ns))
    (hc : src.Stands (printed n ++ '\n' :: post) c) : c.token? = some n.leadToken := by
  cases h with
  | group => exact Source.Stands.token?_mark (m := .braceOpen) hc
  | block =>
    rw [printed, List.append_assoc] at hc
    exact hc.token?_word (isWord_keyword _) stops_space
  | inherits =>
    rw [printed, List.append_assoc] at hc
    exact hc.token?_word (isWord_keyword _) stops_space
  | includes =>
    rw [printed, List.append_assoc] at hc
    exact hc.token?_word (isWord_keyword _) stops_space
  | includesWith =>
    rw [printed, List.append_assoc] at hc
    exact hc.token?_word (isWord_keyword _) stops_space
  | includesRaw =>
    rw [printed, List.append_assoc, List.append_assoc] at hc
    exact hc.token?_word (isWord_keyword _) (stops_filters _ stops_space)
  | @mixin _ _ isCall =>
    rw [printed, List.append_assoc] at hc
    cases isCall with
    | true => exact Source.Stands.token?_mark (m := .plus) hc
    | false =>
      rw [if_neg Bool.false_ne_true, List.append_assoc] at hc
      exact hc.token?_word (isWord_keyword .mixin) stops_space
  | call => exact Source.Stands.token?_mark (m := .plus) hc
  | filter => exact Source.Stands.token?_mark (m := .colon) hc
  | yield => exact hc.token?_word (isWord_keyword _) stops_newline
  | text => exact hc.token?_text
  | @tag _ textOnly _ _ _ _ hname =>
    rw [printed, List.append_assoc] at hc
    cases textOnly with
    | true => exact hc.token?_word hname (stops_cons.mpr rfl)
    | false => exact hc.token?_word hname stops_space

/-- What can follow statements: a closing brace or nothing. -/
def Ends (tail : List Char) : Prop := ∀ d ∈ tail.head?, d = '\x7d'

theorem Ends.token? {tail : List Char} (h : Ends tail) (hc : src.Stands tail c) :
    ∀ t ∈ c.token?, t = .mark .braceClose := by
  cases tail with
  | nil =>
    simp [Cursor.token?, hc.rest_eq_nil]
  | cons d tail =>
    obtain rfl := h d rfl
    rw [Source.Stands.token?_mark (m := .braceClose) hc]
    exact fun t ht ↦ (Option.some.inj ht).symm

/-- Behind a statement without a body neither a body nor an argument list follows, when the next
statement is no group. -/
theorem Written.token?_ne (h : Written file ns) {tail : List Char} (htail : Ends tail)
    (hc : src.Stands ('\n' :: (printedAll ns ++ tail)) c) :
    c.token? ≠ some (.mark .parenOpen) ∧
      (startsWithGroup ns = false → c.token? ≠ some (.mark .braceOpen)) := by
  have hc := hc.blank rfl
  cases ns with
  | nil =>
    have htoken := htail.token? hc
    exact ⟨fun hparen ↦ (nomatch htoken _ hparen), fun _ hbrace ↦ (nomatch htoken _ hbrace)⟩
  | cons n ns =>
    rw [printedAll_cons_append] at hc
    rw [h.token?_printed hc]
    cases n with
    | mixin head _ =>
      rw [leadToken]
      split <;> exact ⟨nofun, fun _ ↦ nofun⟩
    | group => exact ⟨nofun, nofun⟩
    | _ => exact ⟨nofun, fun _ ↦ nofun⟩

end Templating
