import Templating.Proofs.Grammar.Printing

/-!
# Printed documents are read again

A statement is told by its first token (`Grammar.finds_statement`). So the statements of a printed
document are read again one by one, and the document that they make is the printed one but for its
line numbers (`Source.document_print`).
-/

namespace Templating

open Lexer Grammar Grammar.Parser Node

variable {src : Source} {body : Parser (List Node)} {c d : Cursor} {t : Token}

/-! ### The kind of a statement -/

namespace Grammar

/-- A quoted text. -/
def isText : Token → Bool
  | .string _ => true
  | _ => false

/-- A name. -/
def isName : Token → Bool
  | .ident _ => true
  | _ => false

/-- The parsers of statements, each with the tokens that begin its statements. -/
def statementKinds (src : Source) (body : Parser (List Node)) :
    List ((Token → Bool) × Parser Node) :=
  [(fun t ↦ t == .keyword .inherits, inheritStatement src),
    (fun t ↦ t == .keyword .includes, includeStatement src body),
    (fun t ↦ t == .keyword .block || (t == .keyword .append || t == .keyword .prepend),
      blockStatement src body),
    (fun t ↦ t == .keyword .mixin, mixinDefinition src body),
    (fun t ↦ t == .mark .plus, mixinCall src body),
    (fun t ↦ t == .mark .colon, filterStatement src body),
    (fun t ↦ t == .keyword .yield, yieldStatement src),
    (isText, textStatement src),
    (isName, tagStatement src body),
    (fun t ↦ t == .mark .braceOpen, groupStatement src body)]

/-- The parser for the statements that begin with a token. -/
def statementFrom (src : Source) (body : Parser (List Node)) (t : Token) : Parser Node :=
  ((statementKinds src body).find? fun k ↦ k.1 t).elim stuck Prod.snd

theorem refuses_token_of_ne {t : Token} (h : ∀ u ∈ c.token?, (u == t) = false) :
    (token t).Refuses c :=
  .token fun ht ↦ by simpa using h t ht

/-- A parser of statements yields nothing before a token that begins none of its statements. -/
theorem refuses_of_kind {k : (Token → Bool) × Parser Node}
    (hbody : (∀ t ∈ c.token?, (t == .mark .braceOpen) = false) → body.Refuses c)
    (hk : k ∈ statementKinds src body) (h : ∀ t ∈ c.token?, k.1 t = false) : k.2.Refuses c := by
  simp only [statementKinds, List.mem_cons, List.not_mem_nil, or_false] at hk
  rcases hk with rfl | rfl | rfl | rfl | rfl | rfl | rfl | rfl | rfl | rfl
  · exact (Refuses.spanned (refuses_token_of_ne h).bind).bind
  · exact .bind_of_finds <| .here (Refuses.spanned (refuses_token_of_ne h).bind).bind
  · simp only [Bool.or_eq_false_iff] at h
    have hmode : blockMode.Refuses c := by
      refine .firstOf ?_
      simp only [List.forall_mem_cons]
      exact ⟨(refuses_token_of_ne fun t ht ↦ (h t ht).1).bind,
        (refuses_token_of_ne fun t ht ↦ (h t ht).2.1).bind,
        (refuses_token_of_ne fun t ht ↦ (h t ht).2.2).bind, by simp⟩
    exact (Refuses.spanned hmode.bind).bind
  · exact (Refuses.spanned (refuses_token_of_ne h).bind).bind
  · exact (Refuses.spanned (refuses_token_of_ne h).bind).bind
  · exact (Refuses.spanned (refuses_token_of_ne h).bind).bind
  · exact (Refuses.spanned (refuses_token_of_ne h)).bind
  · exact (Refuses.spanned (Refuses.string fun s hs ↦ nomatch h _ hs)).bind
  · exact (Refuses.spanned (Refuses.ident fun s hs ↦ nomatch h _ hs).bind).bind
  · exact (Refuses.spanned (hbody h)).bind

theorem finds_firstOf_kinds {ks : List ((Token → Bool) × Parser Node)} {Q : Node → Cursor → Prop}
    (hks : ∀ k ∈ ks, (∀ t ∈ c.token?, k.1 t = false) → k.2.Refuses c) (ht : c.token? = some t)
    (h : ((ks.find? fun k ↦ k.1 t).elim stuck Prod.snd).Finds c Q) :
    (firstOf (ks.map Prod.snd)).Finds c Q := by
  induction ks with
  | nil => exact h
  | cons k ks ih =>
    rw [List.forall_mem_cons] at hks
    cases hk : k.1 t with
    | true =>
      simp only [List.find?_cons, hk] at h
      exact .firstOf_head h
    | false =>
      simp only [List.find?_cons, hk] at h
      refine .firstOf_tail (hks.1 fun u hu ↦ ?_) (ih hks.2 h)
      rwa [Option.some.inj (hu.symm.trans ht)]

/-- A statement is told by its first token. -/
theorem finds_statement {depth : Nat} {Q : Node → Cursor → Prop} (ht : c.token? = some t)
    (h : (statementFrom src (bodyWithin src depth) t).Finds c Q) :
    (statement src (depth + 1)).Finds c Q := by
  have hbody : (∀ t ∈ c.token?, (t == .mark .braceOpen) = false) →
      (bodyWithin src depth).Refuses c := fun hbrace ↦ (refuses_token_of_ne hbrace).bind
  exact finds_firstOf_kinds (fun _ hk ↦ refuses_of_kind hbody hk) ht h

/-- No statement begins with a closing brace. -/
theorem refuses_statement {depth : Nat} (h : ∀ t ∈ c.token?, t = .mark .braceClose) :
    (statement src depth).Refuses c := by
  cases depth with
  | zero => exact fun _ ↦ rfl
  | succ depth =>
    have hkinds : ∀ k ∈ statementKinds src (bodyWithin src depth), ∀ t ∈ c.token?,
        k.1 t = false := by
      intro k hk t ht
      obtain rfl := h t ht
      simp only [statementKinds, List.mem_cons, List.not_mem_nil, or_false] at hk
      rcases hk with rfl | rfl | rfl | rfl | rfl | rfl | rfl | rfl | rfl | rfl <;> rfl
    refine .firstOf fun p hp ↦ ?_
    obtain ⟨k, hk, rfl⟩ := List.mem_map.mp (show p ∈ (statementKinds src _).map Prod.snd from hp)
    exact refuses_of_kind (fun hbrace ↦ (refuses_token_of_ne hbrace).bind) hk (hkinds k hk)

end Grammar

/-! ### Reading printed statements -/

/-- From a place the node is read again, but for line numbers, up to the text `post`. -/
def Source.Rereads (src : Source) (p : Parser Node) (c : Cursor) (n : Node) (post : List Char) :
    Prop :=
  p.Finds c fun m d ↦ m.withoutLines = n.withoutLines ∧ src.Stands post d ∧
    d.rest.length < c.rest.length

/-- The statements are read from their printed text. -/
def ReadsPrinted (src : Source) (ns : List Node) : Prop :=
  ∀ {tail : List Char} {c : Cursor} {depth limit : Nat}, Ends tail →
    src.Stands (printedAll ns ++ tail) c → c.rest.length < depth → c.rest.length ≤ limit →
      (upTo (statement src depth) limit).Finds c fun ms d ↦
        withoutLinesAll ms = withoutLinesAll ns ∧ src.Stands tail d ∧
          d.rest.length ≤ c.rest.length

variable {inner ns rest : List Node} {n : Node} {post : List Char} {depth : Nat}

theorem finds_body (hinner : ReadsPrinted src inner)
    (h : src.Stands (braced (printedAll inner) ++ post) c) (hdepth : c.rest.length ≤ depth) :
    (bodyWithin src depth).Finds c fun ms d ↦
      withoutLinesAll ms = withoutLinesAll inner ∧ src.Stands post d ∧
        d.rest.length < c.rest.length := by
  rw [braced, List.cons_append, List.cons_append, List.append_assoc, List.singleton_append] at h
  refine Source.Stands.finds_between .braceOpen .braceClose post h fun d hd hlt ↦ ?_
  have hends : Ends ('\x7d' :: post) := by simp [Ends]
  refine .many <| (hinner hends (hd.blank rfl) (by omega) (Nat.le_succ _)).imp ?_
  rintro ms e ⟨hms, he, hle⟩
  exact ⟨he, hle, fun f hf hlt ↦ ⟨hms, hf, hlt⟩⟩

theorem readsPrinted_nil : ReadsPrinted src [] := by
  intro tail c depth limit htail h _ _
  exact .upTo_nil (refuses_statement (htail.token? h)) ⟨rfl, h, Nat.le_refl _⟩

theorem readsPrinted_cons (hwritten : Written src.file (n :: ns)) (hns : ReadsPrinted src ns)
    (hn : ∀ {tail : List Char} {c : Cursor} {depth : Nat}, Ends tail →
      src.Stands (printed n ++ '\n' :: (printedAll ns ++ tail)) c → c.rest.length ≤ depth →
      src.Rereads (statementFrom src (bodyWithin src depth) n.leadToken) c n
        ('\n' :: (printedAll ns ++ tail))) :
    ReadsPrinted src (n :: ns) := by
  intro tail c depth limit htail h hdepth hlimit
  rw [printedAll_cons_append] at h
  obtain ⟨depth, rfl⟩ : ∃ k, depth = k + 1 := ⟨depth - 1, by omega⟩
  refine .upTo_cons hlimit <| finds_statement (hwritten.token?_printed h) <|
    (hn htail h (by omega)).imp ?_
  rintro m d ⟨hm, hd, hlt⟩
  refine ⟨hlt, fun limit hlimit ↦ (hns htail (hd.blank rfl) (by omega) hlimit).imp ?_⟩
  rintro ms e ⟨hms, he, hle⟩
  exact ⟨by rw [withoutLinesAll, withoutLinesAll, hm, hms], he, by omega⟩

/-- A nested sequence is read, and none where no brace opens. -/
theorem finds_optionalBody {b : Option Block} (hb : ∀ x ∈ b, ReadsPrinted src x.nodes)
    (h : src.Stands (printedBody b ++ post) c)
    (hnone : b = none → src.Stands post c → c.token? ≠ some (.mark .braceOpen))
    (hdepth : c.rest.length ≤ depth) :
    (optional (bodyWithin src depth)).Finds c fun ms d ↦
      ms.map withoutLinesAll = b.map (fun x ↦ withoutLinesAll x.nodes) ∧ src.Stands post d ∧
        d.rest.length ≤ c.rest.length := by
  cases b with
  | none => exact .optional_none (.between (hnone rfl h)) ⟨rfl, h, Nat.le_refl _⟩
  | some x =>
    rw [printedBody, List.cons_append] at h
    refine .optional_some <| (finds_body (hb x rfl) (h.blank rfl) hdepth).imp ?_
    rintro ms d ⟨hms, hd, hlt⟩
    exact ⟨congrArg some hms, hd, Nat.le_of_lt hlt⟩

theorem finds_optionalArguments {args : Option String}
    (hargs : ∀ text ∈ args, IsArguments text.toList)
    (h : src.Stands (printedArguments args ++ post) c)
    (hnone : args = none → src.Stands post c → c.token? ≠ some (.mark .parenOpen)) :
    (optional (arguments src)).Finds c fun as d ↦ as = args ∧ src.Stands post d ∧
      d.rest.length ≤ c.rest.length := by
  cases args with
  | none => exact .optional_none (.between (hnone rfl h)) ⟨rfl, h, Nat.le_refl _⟩
  | some text =>
    rw [printedArguments, List.cons_append, List.append_assoc, List.singleton_append] at h
    refine .optional_some <| (finds_arguments (hargs text rfl) h).imp ?_
    rintro _ d ⟨rfl, hd, hlt⟩
    exact ⟨by rw [String.ofList_toList], hd, Nat.le_of_lt hlt⟩

theorem withoutLinesBody_map {ms : Option (List Node)} {b : Option Block} {s : Span}
    (h : ms.map withoutLinesAll = b.map fun x ↦ withoutLinesAll x.nodes)
    (hb : ∀ x ∈ b, x.position.file = src.file) :
    withoutLinesBody (ms.map fun ns ↦ ⟨ns, positionAt src s⟩) = withoutLinesBody b := by
  cases ms with
  | none =>
    cases b with
    | none => rfl
    | some x => cases h
  | some ns =>
    cases b with
    | none => cases h
    | some x =>
      have hns := Option.some.inj h
      rw [Option.map_some, withoutLinesBody, withoutLinesBody, hns,
        Position.withoutLine_eq (hb x rfl)]
      rfl

/-! ### Statements of each kind -/

theorem rereads_groupStatement {p : Position} (hp : p.file = src.file)
    (hinner : ReadsPrinted src inner) (h : src.Stands (printed (.group ⟨inner, p⟩) ++ post) c)
    (hdepth : c.rest.length ≤ depth) :
    src.Rereads (groupStatement src (bodyWithin src depth)) c (.group ⟨inner, p⟩) post := by
  refine .bind <| .spanned <| (finds_body hinner h hdepth).imp ?_
  rintro ms d ⟨hms, hd, hlt⟩
  refine .pure ⟨?_, hd, hlt⟩
  rw [withoutLines, withoutLines, hms, Position.withoutLine_eq hp]
  rfl

theorem rereads_inheritStatement {path : String} {p : Position} (hp : p.file = src.file)
    (h : src.Stands (printed (.inherits (.unloaded path src.file) none p) ++ post) c) :
    src.Rereads (inheritStatement src) c (.inherits (.unloaded path src.file) none p) post := by
  rw [printed, List.append_assoc, List.cons_append] at h
  refine .bind <| .spanned <| .bind <| h.finds_keyword stops_space fun d hd hlt ↦
    (hd.blank rfl).finds_string fun e he hlt' ↦ .pure ⟨?_, he, by omega⟩
  rw [withoutLines, withoutLines, Position.withoutLine_eq hp]
  rfl

theorem rereads_yieldStatement {p : Position} (hp : p.file = src.file)
    (hpost : Stops isWordChar post) (h : src.Stands (printed (.yield p) ++ post) c) :
    src.Rereads (yieldStatement src) c (.yield p) post := by
  refine .bind <| .spanned <| Source.Stands.finds_keyword h hpost fun d hd hlt ↦ .pure ⟨?_, hd, hlt⟩
  rw [withoutLines, withoutLines, Position.withoutLine_eq hp]
  rfl

theorem rereads_textStatement {value : String} {p : Position} (hp : p.file = src.file)
    (h : src.Stands (printed (.text value p) ++ post) c) :
    src.Rereads (textStatement src) c (.text value p) post := by
  refine .bind <| .spanned <| Source.Stands.finds_string h fun d hd hlt ↦ .pure ⟨?_, hd, hlt⟩
  rw [withoutLines, withoutLines, Position.withoutLine_eq hp]
  rfl

theorem finds_blockMode {mode : Mode} (h : src.Stands
      (Keyword.block.text.toList ++ ' ' :: (mode.keyword.text.toList ++ ' ' :: post)) c) :
    blockMode.Finds c fun m d ↦ m = mode ∧ src.Stands (' ' :: post) d ∧
      d.rest.length < c.rest.length := by
  refine .firstOf_head <| .bind <| h.finds_keyword stops_space fun d hd hlt ↦ .bind <|
    .optional_some ?_
  have hd := hd.blank rfl
  have hne : ∀ {k : Keyword} {m : Mode}, mode.keyword ≠ k →
      (do keyword k; pure m : Parser Mode).Refuses d := by
    intro k m hk
    refine (Refuses.token ?_).bind
    rw [hd.token?_word (isWord_keyword mode.keyword) stops_space]
    simpa using hk
  have hmode : (do keyword mode.keyword; pure mode : Parser Mode).Finds d fun m e ↦
      (pure m : Parser Mode).Finds e fun m e ↦ m = mode ∧ src.Stands (' ' :: post) e ∧
        e.rest.length < c.rest.length :=
    .bind <| hd.finds_keyword stops_space fun e he hlt' ↦ .pure <| .pure ⟨rfl, he, by omega⟩
  cases mode with
  | append => exact .firstOf_head hmode
  | prepend => exact .firstOf_tail (hne nofun) <| .firstOf_head hmode
  | replace => exact .firstOf_tail (hne nofun) <| .firstOf_tail (hne nofun) <| .firstOf_head hmode

theorem rereads_blockStatement {name : String} {mode : Mode} {p : Position} (hname : IsName name)
    (hp : p.file = src.file) (hinner : ReadsPrinted src inner)
    (h : src.Stands (printed (.block ⟨name, mode, p, none, none, false⟩ inner) ++ post) c)
    (hdepth : c.rest.length ≤ depth) :
    src.Rereads (blockStatement src (bodyWithin src depth)) c
      (.block ⟨name, mode, p, none, none, false⟩ inner) post := by
  rw [printed] at h
  simp only [List.append_assoc, List.cons_append] at h
  refine .bind <| .spanned <| .bind <| (finds_blockMode h).imp ?_
  rintro _ d ⟨rfl, hd, hlt⟩
  refine .bind <| (hd.blank rfl).finds_ident hname stops_space fun e he hlt' ↦ .bind <|
    (finds_body hinner (he.blank rfl) (by omega)).imp ?_
  rintro ms f ⟨hms, hf, hlt''⟩
  refine .pure <| .pure ⟨?_, hf, by omega⟩
  rw [withoutLines, withoutLines, hms, BlockHead.withoutLine, BlockHead.withoutLine,
    Position.withoutLine_eq hp]
  rfl

theorem rereads_mixinDefinition {name : String} {args : Option String} {p q : Position}
    (hname : IsName name) (hargs : ∀ text ∈ args, IsArguments text.toList)
    (hp : p.file = src.file) (hq : q.file = src.file) (hinner : ReadsPrinted src inner)
    (h : src.Stands (printed (.mixin ⟨name, args, false, p⟩ (some ⟨inner, q⟩)) ++ post) c)
    (hdepth : c.rest.length ≤ depth) :
    src.Rereads (mixinDefinition src (bodyWithin src depth)) c
      (.mixin ⟨name, args, false, p⟩ (some ⟨inner, q⟩)) post := by
  have h : src.Stands (Keyword.mixin.text.toList ++ ' ' :: (name.toList ++
      (printedArguments args ++ ' ' :: (braced (printedAll inner) ++ post)))) c := by
    simpa [printed, printedBody] using h
  refine .bind <| .spanned <| .bind <| h.finds_keyword stops_space fun d hd hlt ↦ .bind <|
    (hd.blank rfl).finds_ident hname (stops_arguments args stops_space) fun e he hlt' ↦ .bind <|
    (finds_optionalArguments hargs he fun _ he ↦ ?_).imp ?_
  · rw [Source.Stands.token?_mark (m := .braceOpen) (he.blank rfl)]
    decide
  · rintro _ f ⟨rfl, hf, hle⟩
    refine .bind <| (finds_body hinner (hf.blank rfl) (by omega)).imp ?_
    rintro ms g ⟨hms, hg, hlt''⟩
    refine .pure <| .pure ⟨?_, hg, by omega⟩
    rw [withoutLines, withoutLines, MixinHead.withoutLine, MixinHead.withoutLine, withoutLinesBody,
      withoutLinesBody, hms, Position.withoutLine_eq hp, Position.withoutLine_eq hq]
    rfl

theorem rereads_mixinCall {name : String} {args : Option String} {p : Position} {b : Option Block}
    (hname : IsName name) (hargs : ∀ text ∈ args, IsArguments text.toList)
    (hp : p.file = src.file) (hb : ∀ x ∈ b, x.position.file = src.file ∧ ReadsPrinted src x.nodes)
    (hpost : Stops isWordChar post) (hnext : b = none → ∀ {d}, src.Stands post d →
      d.token? ≠ some (.mark .parenOpen) ∧ d.token? ≠ some (.mark .braceOpen))
    (h : src.Stands (printed (.mixin ⟨name, args, true, p⟩ b) ++ post) c)
    (hdepth : c.rest.length ≤ depth) :
    src.Rereads (mixinCall src (bodyWithin src depth)) c (.mixin ⟨name, args, true, p⟩ b) post := by
  have h : src.Stands ('+' :: (name.toList ++ (printedArguments args ++
      (printedBody b ++ post)))) c := by
    simpa [printed, Mark.char] using h
  have hstop : Stops isWordChar (printedArguments args ++ (printedBody b ++ post)) := by
    refine stops_arguments args ?_
    cases b with
    | none => exact hpost
    | some x => exact stops_space
  refine .bind <| .spanned <| .bind <| Source.Stands.finds_mark (m := .plus) h fun d hd hlt ↦
    .bind <| hd.finds_ident hname hstop fun e he hlt' ↦ .bind <|
    (finds_optionalArguments hargs he fun _ he ↦ ?_).imp ?_
  · cases b with
    | none => exact (hnext rfl he).1
    | some x =>
      rw [Source.Stands.token?_mark (m := .braceOpen) (he.blank rfl)]
      decide
  · rintro _ f ⟨rfl, hf, hle⟩
    refine .bind <| (finds_optionalBody (fun x hx ↦ (hb x hx).2) hf (fun hnone hf ↦
      (hnext hnone hf).2) (by omega)).imp ?_
    rintro ms g ⟨hms, hg, hle'⟩
    refine .pure <| .pure ⟨?_, hg, by omega⟩
    rw [withoutLines, withoutLines, MixinHead.withoutLine, MixinHead.withoutLine,
      Position.withoutLine_eq hp, withoutLinesBody_map hms fun x hx ↦ (hb x hx).1]
    rfl

theorem rereads_filterStatement {u : FilterUse} {q : Position} (hu : u.IsWritten src.file)
    (hq : q.file = src.file) (hinner : ReadsPrinted src inner)
    (h : src.Stands (printed (.filter u ⟨inner, q⟩) ++ post) c) (hdepth : c.rest.length ≤ depth) :
    src.Rereads (filterStatement src (bodyWithin src depth)) c (.filter u ⟨inner, q⟩) post := by
  have h : src.Stands (':' :: (u.name.toList ++ (printedAttrs u.attrs ++
      ' ' :: (braced (printedAll inner) ++ post)))) c := by
    simpa [printed, FilterUse.printed] using h
  refine .bind <| .spanned <| .bind <| Source.Stands.finds_mark (m := .colon) h fun d hd hlt ↦
    .bind <| hd.finds_ident hu.name (stops_attrs _ stops_space) fun e he hlt' ↦ .bind <|
    (finds_optional_attrs hu.attrs he fun he ↦ ?_).imp ?_
  · rw [Source.Stands.token?_mark (m := .braceOpen) (he.blank rfl)]
    decide
  · rintro as f ⟨has, hf, hle⟩
    refine .bind <| (finds_body hinner (hf.blank rfl) (by omega)).imp ?_
    rintro ms g ⟨hms, hg, hlt''⟩
    refine .pure <| .pure ⟨?_, hg, by omega⟩
    rw [withoutLines, withoutLines, FilterUse.withoutLine, FilterUse.withoutLine, has, hms,
      Position.withoutLine_eq hu.position, Position.withoutLine_eq hq]
    rfl

theorem rereads_tagStatement {name : String} {textOnly : Bool} {p q : Position}
    (hname : IsName name) (hp : p.file = src.file) (hq : q.file = src.file)
    (hinner : ReadsPrinted src inner)
    (h : src.Stands (printed (.tag ⟨name, textOnly, p⟩ ⟨inner, q⟩) ++ post) c)
    (hdepth : c.rest.length ≤ depth) :
    src.Rereads (tagStatement src (bodyWithin src depth)) c
      (.tag ⟨name, textOnly, p⟩ ⟨inner, q⟩) post := by
  have h : src.Stands (name.toList ++ ((if textOnly then ['.'] else []) ++
      ' ' :: (braced (printedAll inner) ++ post))) c := by
    simpa [printed] using h
  have hstop : Stops isWordChar ((if textOnly then ['.'] else []) ++
      ' ' :: (braced (printedAll inner) ++ post)) := by
    cases textOnly <;> exact stops_cons.mpr rfl
  have hdot : ∀ d, src.Stands ((if textOnly then ['.'] else []) ++
      ' ' :: (braced (printedAll inner) ++ post)) d → (optional (mark .dot)).Finds d fun dot e ↦
        dot.isSome = textOnly ∧ src.Stands (' ' :: (braced (printedAll inner) ++ post)) e ∧
          e.rest.length ≤ d.rest.length := by
    intro d hd
    cases textOnly with
    | true =>
      exact .optional_some <| Source.Stands.finds_mark (m := .dot) hd fun e he hlt ↦
        ⟨rfl, he, Nat.le_of_lt hlt⟩
    | false =>
      refine .optional_none (.token ?_) ⟨rfl, hd, Nat.le_refl _⟩
      have hbrace := (show src.Stands (' ' :: _) d from hd).blank rfl
      rw [Source.Stands.token?_mark (m := .braceOpen) hbrace]
      decide
  refine .bind <| .spanned <| .bind <| h.finds_ident hname hstop fun d hd hlt ↦ .bind <|
    (hdot d hd).imp ?_
  rintro dot e ⟨hsome, he, hle⟩
  refine .bind <| .optional_some <| (finds_body hinner (he.blank rfl) (by omega)).imp ?_
  rintro ms f ⟨hms, hf, hlt'⟩
  refine .pure <| .pure ⟨?_, hf, by omega⟩
  rw [withoutLines, withoutLines, TagHead.withoutLine, TagHead.withoutLine, hsome, Option.getD_some,
    hms, Position.withoutLine_eq hp, Position.withoutLine_eq hq]
  rfl

theorem finds_filters (us : List FilterUse) {path : String} {limit : Nat}
    (hus : ∀ u ∈ us, u.IsWritten src.file)
    (h : src.Stands (us.flatMap FilterUse.printed ++ ' ' :: (printedText path ++ post)) c)
    (hlimit : c.rest.length ≤ limit) :
    (upTo (filterUse src) limit).Finds c fun ws d ↦
      ws.map FilterUse.withoutLine = us.map FilterUse.withoutLine ∧
        src.Stands (' ' :: (printedText path ++ post)) d ∧ d.rest.length ≤ c.rest.length := by
  induction us generalizing c limit with
  | nil =>
    have htoken := (show src.Stands (' ' :: _) c from h).blank rfl |>.token?_text
    exact .upTo_nil (Refuses.spanned (Refuses.token (by rw [htoken]; nofun)).bind).bind
      ⟨rfl, h, Nat.le_refl _⟩
  | cons u us ih =>
    rw [List.forall_mem_cons] at hus
    rw [List.flatMap_cons, List.append_assoc] at h
    refine .upTo_cons hlimit <| (finds_filterUse hus.1 h (stops_filters us stops_space) ?_).imp ?_
    · intro d hd
      cases us with
      | nil =>
        rw [(show src.Stands (' ' :: _) d from hd).blank rfl |>.token?_text]
        nofun
      | cons u us =>
        rw [Source.Stands.token?_mark (m := .colon) hd]
        decide
    · rintro w d ⟨hw, hd, hlt⟩
      refine ⟨hlt, fun limit hlimit ↦ (ih hus.2 hd hlimit).imp ?_⟩
      rintro ws e ⟨hws, he, hle⟩
      exact ⟨by rw [List.map_cons, List.map_cons, hw, hws], he, by omega⟩

theorem rereads_includeStatement {path : String} {p : Position} {b : Option Block}
    (htemplate : namesTemplate path) (hp : p.file = src.file)
    (hb : ∀ x ∈ b, x.position.file = src.file ∧ ReadsPrinted src x.nodes)
    (hnext : b = none → ∀ {d}, src.Stands post d → d.token? ≠ some (.mark .braceOpen))
    (h : src.Stands (printed (.includes (.unloaded path src.file) none b p) ++ post) c)
    (hdepth : c.rest.length ≤ depth) :
    src.Rereads (includeStatement src (bodyWithin src depth)) c
      (.includes (.unloaded path src.file) none b p) post := by
  have h : src.Stands (Keyword.includes.text.toList ++ ' ' :: (printedText path ++
      (printedBody b ++ post))) c := by
    simpa [printed, Reference.unloaded] using h
  refine .bind <| .here <| .bind <| .spanned <| .bind <| h.finds_keyword stops_space
    fun d hd hlt ↦ .bind <| .many <| (finds_filters [] (by simp) hd (Nat.le_succ _)).imp ?_
  rintro ws e ⟨hws, he, hle⟩
  obtain rfl := List.map_eq_nil_iff.mp hws
  refine .bind <| (he.blank rfl).finds_string fun f hf hlt' ↦ .bind <|
    (finds_optionalBody (fun x hx ↦ (hb x hx).2) hf (fun hnone hf ↦ hnext hnone hf)
      (by omega)).imp ?_
  rintro ms g ⟨hms, hg, hle'⟩
  refine .pure ?_
  dsimp only
  rw [if_pos (by simpa using htemplate)]
  refine .pure ⟨?_, hg, by omega⟩
  rw [withoutLines, withoutLines, Position.withoutLine_eq hp,
    withoutLinesBody_map hms fun x hx ↦ (hb x hx).1]
  rfl

theorem rereads_includeRaw {path : String} {us : List FilterUse} {p : Position}
    (hraw : (us.isEmpty && namesTemplate path) = false) (hus : ∀ u ∈ us, u.IsWritten src.file)
    (hp : p.file = src.file)
    (hnext : ∀ {d}, src.Stands post d → d.token? ≠ some (.mark .braceOpen))
    (h : src.Stands (printed (.includesRaw (.unloaded path src.file) none us p) ++ post) c) :
    src.Rereads (includeStatement src (bodyWithin src depth)) c
      (.includesRaw (.unloaded path src.file) none us p) post := by
  have h : src.Stands (Keyword.includes.text.toList ++ (us.flatMap FilterUse.printed ++
      ' ' :: (printedText path ++ post))) c := by
    simpa [printed, Reference.unloaded] using h
  refine .bind <| .here <| .bind <| .spanned <| .bind <| h.finds_keyword
    (stops_filters us stops_space) fun d hd hlt ↦ .bind <| .many <|
      (finds_filters us hus hd (Nat.le_succ _)).imp ?_
  rintro ws e ⟨hws, he, hle⟩
  have hempty : ws.isEmpty = us.isEmpty := by
    simpa using congrArg List.isEmpty hws
  refine .bind <| (he.blank rfl).finds_string fun f hf hlt' ↦ .bind <|
    .optional_none (.between (hnext hf)) <| .pure ?_
  dsimp only
  rw [hempty, if_neg (by simp [hraw])]
  refine .pure ⟨?_, hf, by omega⟩
  rw [withoutLines, withoutLines, Position.withoutLine_eq hp, hws]
  rfl

/-! ### Documents -/

/-- Statements that can be written are read from their printed text. -/
theorem Written.readsPrinted (h : Written src.file ns) : ReadsPrinted src ns := by
  induction h with
  | nil => exact readsPrinted_nil
  | group hp hinner hrest ihinner ih =>
    exact readsPrinted_cons (.group hp hinner hrest) ih fun _ hc hdepth ↦
      rereads_groupStatement hp ihinner hc hdepth
  | block hname hp hinner hrest ihinner ih =>
    exact readsPrinted_cons (.block hname hp hinner hrest) ih fun _ hc hdepth ↦
      rereads_blockStatement hname hp ihinner hc hdepth
  | inherits hp hrest ih =>
    exact readsPrinted_cons (.inherits hp hrest) ih fun _ hc _ ↦ rereads_inheritStatement hp hc
  | includes htemplate hp hgroup hrest ih =>
    exact readsPrinted_cons (.includes htemplate hp hgroup hrest) ih fun htail hc hdepth ↦
      rereads_includeStatement htemplate hp nofun
        (fun _ _ hd ↦ (hrest.token?_ne htail hd).2 hgroup) hc hdepth
  | includesWith htemplate hp hq hinner hrest ihinner ih =>
    refine readsPrinted_cons (.includesWith htemplate hp hq hinner hrest) ih fun _ hc hdepth ↦
      rereads_includeStatement htemplate hp ?_ nofun hc hdepth
    rintro _ ⟨⟩
    exact ⟨hq, ihinner⟩
  | includesRaw hraw hus hp hgroup hrest ih =>
    exact readsPrinted_cons (.includesRaw hraw hus hp hgroup hrest) ih fun htail hc _ ↦
      rereads_includeRaw hraw hus hp (fun hd ↦ (hrest.token?_ne htail hd).2 hgroup) hc
  | @mixin name args isCall p q inner rest hname hargs hp hq hinner hrest ihinner ih =>
    refine readsPrinted_cons (.mixin hname hargs hp hq hinner hrest) ih fun _ hc hdepth ↦ ?_
    cases isCall with
    | false => exact rereads_mixinDefinition hname hargs hp hq ihinner hc hdepth
    | true =>
      refine rereads_mixinCall hname hargs hp ?_ stops_newline nofun hc hdepth
      rintro _ ⟨⟩
      exact ⟨hq, ihinner⟩
  | call hname hargs hp hgroup hrest ih =>
    exact readsPrinted_cons (.call hname hargs hp hgroup hrest) ih fun htail hc hdepth ↦
      rereads_mixinCall hname hargs hp nofun stops_newline
        (fun _ _ hd ↦ (hrest.token?_ne htail hd).imp_right (· hgroup)) hc hdepth
  | filter hu hq hinner hrest ihinner ih =>
    exact readsPrinted_cons (.filter hu hq hinner hrest) ih fun _ hc hdepth ↦
      rereads_filterStatement hu hq ihinner hc hdepth
  | yield hp hrest ih =>
    exact readsPrinted_cons (.yield hp hrest) ih fun _ hc _ ↦
      rereads_yieldStatement hp stops_newline hc
  | text hp hrest ih =>
    exact readsPrinted_cons (.text hp hrest) ih fun _ hc _ ↦ rereads_textStatement hp hc
  | tag hname hp hq hinner hrest ihinner ih =>
    exact readsPrinted_cons (.tag hname hp hq hinner hrest) ih fun _ hc hdepth ↦
      rereads_tagStatement hname hp hq ihinner hc hdepth

theorem finds_document (hns : Written src.file ns) (h : src.Stands (printedAll ns) c) :
    (document src).Finds c fun m _ ↦
      m.withoutLines = (Node.group ⟨ns, ⟨src.file, 1⟩⟩).withoutLines := by
  have hall : (do
      let nodes ← many (statement src (c.rest.length + 1))
      endOfText
      pure (Node.group ⟨nodes, ⟨src.file, 1⟩⟩) : Parser Node).Finds c fun m _ ↦
        m.withoutLines = (Node.group ⟨ns, ⟨src.file, 1⟩⟩).withoutLines := by
    have h : src.Stands (printedAll ns ++ []) c := by rwa [List.append_nil]
    refine .bind <| .many <| (hns.readsPrinted (by simp [Ends]) h (Nat.lt_succ_self _)
      (Nat.le_succ _)).imp ?_
    rintro ms d ⟨hms, hd, -⟩
    refine .bind <| .endOfText hd.rest_eq_nil <| .pure ?_
    rw [withoutLines, withoutLines, hms]
  obtain ⟨m, d, hm, hwithout⟩ := hall
  exact ⟨m, d, fun kept ↦ hm kept, hwithout⟩

theorem Source.stands_start {ls : List Lexeme} (h : Lexed 0 src.text.toList ls) :
    src.Stands src.text.toList (.start ls src.size) :=
  ⟨[], rfl, h⟩

/-- Of a text that makes a document, the printed document makes a document again, the same but for
line numbers. -/
theorem Source.document_print {n : Node} (h : src.document = .ok n) :
    ∃ m, Source.document ⟨n.print, src.file⟩ = .ok m ∧ m.withoutLines = n.withoutLines := by
  obtain ⟨ns, rfl, hns⟩ := written_of_document h
  obtain ⟨ls, hls⟩ := hns.lexable .nil 0
  let again : Source := ⟨(Node.group ⟨ns, ⟨src.file, 1⟩⟩).print, src.file⟩
  have htext : again.text.toList = printedAll ns := String.toList_ofList
  have hlexed : Lexed 0 again.text.toList ls := by rwa [htext, ← List.append_nil (printedAll ns)]
  have hstands : again.Stands (printedAll ns) (.start ls again.size) := htext ▸ stands_start hlexed
  obtain ⟨m, d, hm, hwithout⟩ := finds_document (show Written again.file ns from hns) hstands
  exact ⟨m, document_eq_ok.mpr ⟨ls, lexed_iff.mp hlexed, parse_eq_ok.mpr ⟨d, hm none⟩⟩, hwithout⟩

/-- A text with statements that take their short forms. -/
def surveySource : Source :=
  ⟨"prepend top \x7b 'a \"b\"' \x7d // end\n+card(x, // first\n  1.5)" ++
    ":wide(by = f(1), all,) \x7b p. br \x7d include:upper \"part.tmpl\"", some ⟨"/survey.tmpl"⟩⟩

/-- The document of the text, printed. -/
def surveyPrinted : String :=
  "block prepend top \x7b\n\"a \\\"b\\\"\"\n\x7d\n+card(x, // first\n  1.5)\n" ++
    ":wide(by=f(1), all) \x7b\np. \x7b\n\x7d\nbr \x7b\n\x7d\n\x7d\ninclude:upper \"part.tmpl\"\n"

theorem Source.document_print_survey :
    ∃ n m, surveySource.document = .ok n ∧ n.print = surveyPrinted ∧
      Source.document ⟨n.print, some ⟨"/survey.tmpl"⟩⟩ = .ok m ∧
      m.withoutLines = n.withoutLines := by
  have hprint : surveySource.document.toOption.map print = some surveyPrinted := by
    decide +kernel
  match h : surveySource.document with
  | .ok n =>
    rw [h] at hprint
    obtain ⟨m, hm, hwithout⟩ := Source.document_print h
    exact ⟨n, m, rfl, Option.some.inj hprint, hm, hwithout⟩
  | .error e =>
    rw [h] at hprint
    cases hprint

end Templating
