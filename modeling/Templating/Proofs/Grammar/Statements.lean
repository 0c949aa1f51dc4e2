import Mathlib.Data.List.Forall2
import Templating.Proofs.Grammar.Options
import Templating.Proofs.Grammar.Parsed

/-!
# Statements and their tokens

From which tokens a sequence of statements is read (`Grammar.Forms`): for each statement those that
open it and, if it has a body, those of the body in braces. So each node of a document has a first
token, and it is the one at which the grammar takes the position of the node and of its body
(`Source.forms_of_document`).
-/

namespace Templating.Grammar

open Lexer Grammar.Parser Node

/-- The words for the mode of a named block. -/
inductive ModeTokens : Mode → List Token → Prop
  | block : ModeTokens .replace [.keyword .block]
  | blockAppend : ModeTokens .append [.keyword .block, .keyword .append]
  | blockPrepend : ModeTokens .prepend [.keyword .block, .keyword .prepend]
  | blockReplace : ModeTokens .replace [.keyword .block, .keyword .replace]
  | append : ModeTokens .append [.keyword .append]
  | prepend : ModeTokens .prepend [.keyword .prepend]

/-- The tokens of filter options: balanced ones in parentheses, or none. -/
inductive OptionTokens : List Token → Prop
  | none : OptionTokens []
  | parens {inner : List Token} (h : Balanced (fun _ ↦ true) inner) :
    OptionTokens (.mark .parenOpen :: (inner ++ [.mark .parenClose]))

/-- The tokens of a mixin's arguments: all up to the first closing parenthesis, or none. -/
inductive ArgumentTokens : Option String → List Token → Prop
  | none : ArgumentTokens none []
  | parens {text : String} {inner : List Token} (h : ∀ t ∈ inner, t ≠ .mark .parenClose) :
    ArgumentTokens (some text) (.mark .parenOpen :: (inner ++ [.mark .parenClose]))

/-- The tokens of filters, each named behind a colon. -/
inductive UseTokens : List FilterUse → List Token → Prop
  | nil : UseTokens [] []
  | cons {u : FilterUse} {us : List FilterUse} {options ts : List Token}
    (hoptions : OptionTokens options) (h : UseTokens us ts) :
    UseTokens (u :: us) (.mark .colon :: .ident u.name :: (options ++ ts))

/-- The mark for plain content of a tag. -/
def dotTokens (textOnly : Bool) : List Token := if textOnly then [.mark .dot] else []

/-- The tokens of a statement up to its body, and the nodes in its body, if it has one. -/
inductive Opening : Node → List Token → Option (List Node) → Prop
  | inherits {f : Reference} {p : Position} :
    Opening (.inherits f none p) [.keyword .inherits, .string f.path] none
  | includes {f : Reference} {b : Option Block} {p : Position} :
    Opening (.includes f none b p) [.keyword .includes, .string f.path] (b.map Body.nodes)
  | includesRaw {f : Reference} {us : List FilterUse} {p : Position} {ts : List Token}
    (h : UseTokens us ts) :
    Opening (.includesRaw f none us p) (.keyword .includes :: (ts ++ [.string f.path])) none
  | block {h : BlockHead} {ns : List Node} {ts : List Token} (hmode : ModeTokens h.mode ts) :
    Opening (.block h ns) (ts ++ [.ident h.name]) (some ns)
  | mixin {h : MixinHead} {b : Block} {ts : List Token} (hcall : h.isCall = false)
    (hargs : ArgumentTokens h.args ts) :
    Opening (.mixin h (some b)) (.keyword .mixin :: .ident h.name :: ts) (some b.nodes)
  | call {h : MixinHead} {b : Option Block} {ts : List Token} (hcall : h.isCall = true)
    (hargs : ArgumentTokens h.args ts) :
    Opening (.mixin h b) (.mark .plus :: .ident h.name :: ts) (b.map Body.nodes)
  | filter {u : FilterUse} {b : Block} {ts : List Token} (hoptions : OptionTokens ts) :
    Opening (.filter u b) (.mark .colon :: .ident u.name :: ts) (some b.nodes)
  | yield {p : Position} : Opening (.yield p) [.keyword .yield] none
  | text {value : String} {p : Position} : Opening (.text value p) [.string value] none
  | tag {h : TagHead} {p : Position} :
    Opening (.tag h ⟨[], p⟩) (.ident h.name :: dotTokens h.textOnly) none
  | tagWith {h : TagHead} {b : Block} :
    Opening (.tag h b) (.ident h.name :: dotTokens h.textOnly) (some b.nodes)
  | group {b : Block} : Opening (.group b) [] (some b.nodes)

/-- Tokens form a sequence of statements. The last list holds the first token of each node, in the
order of the listing. -/
inductive Forms : List Lexeme → List Node → List Lexeme → Prop
  | nil : Forms [] [] []
  | bare {l : Lexeme} {head rest : List Lexeme} {n : Node} {ns : List Node} {firsts : List Lexeme}
    (hn : Opening n ((l :: head).map Lexeme.token) none) (hrest : Forms rest ns firsts) :
    Forms (l :: (head ++ rest)) (n :: ns) (l :: firsts)
  | braced {l closing : Lexeme} {head inner rest : List Lexeme} {ts : List Token} {n : Node}
    {body ns : List Node} {inside firsts : List Lexeme} (hn : Opening n ts (some body))
    (hhead : (l :: head).map Lexeme.token = ts ++ [.mark .braceOpen])
    (hbody : Forms inner body inside) (hclosing : closing.token = .mark .braceClose)
    (hrest : Forms rest ns firsts) :
    Forms (l :: (head ++ (inner ++ closing :: rest))) (n :: ns) (l :: (inside ++ firsts))

/-- The node stands on the line of its first token, and its body stands where the node stands. -/
structure StandsOn (src : Source) (n : Node) (first : Lexeme) : Prop where
  position : n.position = ⟨src.file, src.lineOf first.span.start⟩
  body : ∀ b ∈ n.nestedBlock, b.position = n.position

variable {src : Source} {c d e f : Cursor} {n : Node} {ns ms : List Node} {ts us : List Token}
  {l closing : Lexeme} {rest used more firsts others : List Lexeme} {body : Parser (List Node)}

/-- The first tokens are among the tokens, in their order. -/
theorem Forms.sublist (h : Forms used ns firsts) : firsts.Sublist used := by
  induction h with
  | nil => exact .slnil
  | bare _ _ ih => exact (ih.trans (List.sublist_append_right _ _)).cons_cons _
  | braced _ _ _ _ _ ihbody ih =>
    exact ((ihbody.append (ih.cons _)).trans (List.sublist_append_right _ _)).cons_cons _

theorem Opening.listing_eq {b : Option (List Node)} (h : Opening n ts b) :
    n.listing = n :: listingAll (b.getD []) := by
  cases h with
  | @includes f b p => cases b <;> rfl
  | @call h b => cases b <;> rfl
  | _ => rfl

theorem Opening.ne_nil (h : Opening n ts none) : ts ≠ [] := by
  generalize hb : (none : Option (List Node)) = b at h
  cases h with
  | group => cases hb
  | block => simp
  | _ => exact List.cons_ne_nil _ _

/-- The nodes are read from one place to another, each standing on the line of its first token. -/
def Reads (src : Source) (c : Cursor) (ns : List Node) (d : Cursor) : Prop :=
  ∃ used firsts, c.Takes used d ∧ Forms used ns firsts ∧
    List.Forall₂ (StandsOn src) (listingAll ns) firsts

/-- The node is read from one place to another, before whatever is read behind it. -/
def Heads (src : Source) (c : Cursor) (n : Node) (d : Cursor) : Prop :=
  ∀ ns e, Reads src d ns e → Reads src c (n :: ns) e

/-- The nodes are read in braces from one place to another. -/
def ReadsBody (src : Source) (c : Cursor) (ns : List Node) (d : Cursor) : Prop :=
  ∃ opening rest closing rest' e, c.rest = opening :: rest ∧ opening.token = .mark .braceOpen ∧
    Reads src (c.next opening) ns e ∧ e.rest = closing :: rest' ∧
    closing.token = .mark .braceClose ∧ d = e.next closing

theorem reads_nil : Reads src c [] c := ⟨[], [], .nil, .nil, .nil⟩

theorem span_of_rest (h : c.rest = l :: rest) : c.span = l.span := by
  rw [Cursor.span, h]

/-- The first token of a statement is the one ahead where it is read. -/
theorem standsOn (hrest : c.rest = l :: rest) (hposition : n.position = positionAt src (c.spanTo e))
    (hbody : ∀ b ∈ n.nestedBlock, b.position = n.position) : StandsOn src n l := by
  refine ⟨?_, hbody⟩
  rw [hposition, positionAt, Cursor.spanTo, span_of_rest hrest]

theorem heads_bare (hpasses : c.Passes ts d) (hn : Opening n ts none)
    (hposition : n.position = positionAt src (c.spanTo e))
    (hbody : ∀ b ∈ n.nestedBlock, b.position = n.position) : Heads src c n d := by
  rintro ns e ⟨used, firsts, hused, hforms, hstands⟩
  obtain ⟨taken, htaken, rfl⟩ := hpasses
  have hne : taken ≠ [] := mt (congrArg (List.map Lexeme.token)) hn.ne_nil
  obtain ⟨l, head, rfl⟩ := List.exists_cons_of_ne_nil hne
  refine ⟨l :: head ++ used, l :: firsts, htaken.append hused, .bare hn hforms, ?_⟩
  rw [listingAll_cons, hn.listing_eq]
  exact .cons (standsOn htaken.rest_eq hposition hbody) hstands

theorem heads_braced (hpasses : c.Passes ts d) (hn : Opening n ts (some ns))
    (hread : ReadsBody src d ns e) (hposition : n.position = positionAt src (c.spanTo f))
    (hbody : ∀ b ∈ n.nestedBlock, b.position = n.position) : Heads src c n e := by
  rintro ms g ⟨used, firsts, hused, hforms, hstands⟩
  obtain ⟨opening, rest, closing, rest', e, hrest, hopening, hinner, hrest', hclosing, rfl⟩ := hread
  obtain ⟨inner, inside, htakes, hinside, hstandsInside⟩ := hinner
  obtain ⟨taken, htaken, rfl⟩ := hpasses
  have hhead := htaken.append (Cursor.takes_next hrest)
  obtain ⟨l, head, hl⟩ : ∃ l head, taken ++ [opening] = l :: head :=
    List.exists_cons_of_ne_nil (by simp)
  rw [hl] at hhead
  refine ⟨l :: (head ++ (inner ++ closing :: used)), l :: (inside ++ firsts), ?_,
    .braced hn ?_ hinside hclosing hforms, ?_⟩
  · exact hhead.append (htakes.append ((Cursor.takes_next hrest').append hused))
  · rw [← hl, List.map_append, List.map_singleton, hopening]
  · rw [listingAll_cons, hn.listing_eq]
    exact .cons (standsOn hhead.rest_eq hposition hbody) (List.rel_append hstandsInside hstands)

/-! ### Tokens that are taken -/

theorem passes_token (t : Token) : (token t).Meets c fun _ d ↦ c.Passes [t] d :=
  .token fun _ _ hrest hl ↦ hl ▸ Cursor.passes_next hrest

theorem passes_ident : ident.Meets c fun name d ↦ c.Passes [.ident name] d :=
  .ident fun _ _ _ hrest hl ↦ hl ▸ Cursor.passes_next hrest

theorem passes_string : string.Meets c fun value d ↦ c.Passes [.string value] d :=
  .string fun _ _ _ hrest hl ↦ hl ▸ Cursor.passes_next hrest

theorem passes_attr : (attr src).Meets c fun _ d ↦
    ∃ ts, c.Passes ts d ∧ Balanced (fun _ ↦ true) ts := by
  refine .bind <| passes_ident.imp fun name d hname ↦ ?_
  have hword : Balanced (fun _ ↦ true) [.ident name] := .token rfl rfl .nil
  refine .bind <| .optional (.bind <| (passes_token _).imp fun _ e hequals ↦ .bind <| .spanned <|
    meets_optionTokens.imp ?_) fun _ _ ↦ .pure ⟨_, hname, hword⟩
  rintro _ f ⟨ts, hts, -, hbalanced⟩
  refine .pure <| .pure ⟨_, (hname.append hequals).append hts, ?_⟩
  exact hword.append (.token rfl rfl (hbalanced.imp fun _ _ ↦ rfl))

theorem passes_attrs : (attrs src).Meets c fun _ d ↦ ∃ ts, c.Passes ts d ∧ OptionTokens ts := by
  refine .between fun l rest hrest hl ↦ ?_
  let Taken (d : Cursor) : Prop := ∃ ts, (c.next l).Passes ts d ∧ Balanced (fun _ ↦ true) ts
  have hitem (d : Cursor) (hd : Taken d) : (attr src).Meets d fun _ e ↦ True ∧ Taken e := by
    obtain ⟨ts, hts, hbalanced⟩ := hd
    refine passes_attr.imp fun _ e ⟨us, hus, hmore⟩ ↦ ⟨trivial, _, hts.append hus, ?_⟩
    exact hbalanced.append hmore
  have hcomma (d : Cursor) (hd : Taken d) : (mark .comma).Meets d fun _ e ↦ Taken e := by
    obtain ⟨ts, hts, hbalanced⟩ := hd
    refine (passes_token _).imp fun _ e hus ↦ ⟨_, hts.append hus, ?_⟩
    exact hbalanced.append (.token rfl rfl .nil)
  refine (Meets.separated_forall hitem hcomma ⟨[], Cursor.passes_nil, .nil⟩).imp ?_
  rintro _ d ⟨-, ts, hts, hbalanced⟩ m rest' hrest' hm
  refine ⟨_, ((Cursor.passes_next hrest).append hts).append (Cursor.passes_next hrest'), ?_⟩
  rw [hl, hm]
  exact .parens hbalanced

theorem passes_options : (optional (attrs src)).Meets c fun _ d ↦
    ∃ ts, c.Passes ts d ∧ OptionTokens ts :=
  .optional passes_attrs fun _ _ ↦ ⟨[], Cursor.passes_nil, .none⟩

theorem passes_arguments : (optional (arguments src)).Meets c fun args d ↦
    ∃ ts, c.Passes ts d ∧ ArgumentTokens args ts := by
  refine .optional (.between fun l rest hrest hl ↦ .bind <| .spanned fun kept as d has ↦ .pure ?_)
    fun _ _ ↦ ⟨[], Cursor.passes_nil, .none⟩
  obtain ⟨used, hused, hfree⟩ := meets_argumentTokens _ kept as d has
  intro m rest' hrest' hm
  refine ⟨_, ((Cursor.passes_next hrest).append ⟨used, hused, rfl⟩).append
    (Cursor.passes_next hrest'), ?_⟩
  rw [hl, hm]
  exact .parens hfree

theorem passes_filterUse : (filterUse src).Meets c fun u d ↦
    ∃ ts, c.Passes (.mark .colon :: .ident u.name :: ts) d ∧ OptionTokens ts :=
  .bind <| .spanned <| .bind <| (passes_token _).imp fun _ _ hcolon ↦ .bind <|
    passes_ident.imp fun _ _ hname ↦ .bind <|
    passes_options.imp fun _ _ ⟨ts, hts, hoptions⟩ ↦ .pure <| .pure
      ⟨ts, (hcolon.append hname).append hts, hoptions⟩

theorem passes_filterUses (limit : Nat) : (upTo (filterUse src) limit).Meets c fun us d ↦
    ∃ ts, c.Passes ts d ∧ UseTokens us ts := by
  induction limit generalizing c with
  | zero => exact .upTo_zero ⟨[], Cursor.passes_nil, .nil⟩
  | succ limit ih =>
    refine .upTo_succ (fun _ _ ↦ ⟨[], Cursor.passes_nil, .nil⟩) <| passes_filterUse.imp ?_
    rintro u d ⟨options, hu, hoptions⟩
    refine ih.imp fun us e ⟨ts, hts, hus⟩ ↦ ⟨_, hu.append hts, ?_⟩
    exact .cons hoptions hus

theorem passes_blockMode : blockMode.Meets c fun mode d ↦
    ∃ ts, c.Passes ts d ∧ ModeTokens mode ts := by
  have hword (k : Keyword) (mode : Mode) {c : Cursor} :
      (do keyword k; pure mode : Parser Mode).Meets c fun m d ↦
        m = mode ∧ c.Passes [.keyword k] d :=
    .bind <| (passes_token _).imp fun _ _ hd ↦ .pure ⟨rfl, hd⟩
  refine .firstOf ?_
  simp only [List.forall_mem_cons]
  refine ⟨.bind <| (passes_token _).imp fun _ d hd ↦ .bind <| .optional (.firstOf ?_) fun _ _ ↦
    .pure ⟨_, hd, .block⟩, ?_, ?_, by simp⟩
  · simp only [List.forall_mem_cons]
    refine ⟨(hword _ _).imp ?_, (hword _ _).imp ?_, (hword _ _).imp ?_, by simp⟩
    · rintro _ e ⟨rfl, he⟩
      exact .pure ⟨_, hd.append he, .blockAppend⟩
    · rintro _ e ⟨rfl, he⟩
      exact .pure ⟨_, hd.append he, .blockPrepend⟩
    · rintro _ e ⟨rfl, he⟩
      exact .pure ⟨_, hd.append he, .blockReplace⟩
  · refine (hword _ _).imp ?_
    rintro _ d ⟨rfl, hd⟩
    exact ⟨_, hd, .append⟩
  · refine (hword _ _).imp ?_
    rintro _ d ⟨rfl, hd⟩
    exact ⟨_, hd, .prepend⟩

/-! ### Statements that are read -/

theorem heads_inheritStatement : (inheritStatement src).Meets c (Heads src c) :=
  .bind <| .spanned <| .bind <| (passes_token _).imp fun _ _ hd ↦ passes_string.imp fun _ _ he ↦
    .pure (heads_bare (hd.append he) .inherits rfl nofun)

theorem heads_yieldStatement : (yieldStatement src).Meets c (Heads src c) :=
  .bind <| .spanned <| (passes_token _).imp fun _ _ hd ↦ .pure (heads_bare hd .yield rfl nofun)

theorem heads_textStatement : (textStatement src).Meets c (Heads src c) :=
  .bind <| .spanned <| passes_string.imp fun _ _ hd ↦ .pure (heads_bare hd .text rfl nofun)

section

variable (hbody : ∀ c, body.Meets c (ReadsBody src c))
include hbody

theorem heads_includeStatement : (includeStatement src body).Meets c (Heads src c) := by
  have huses (c : Cursor) : (many (filterUse src)).Meets c fun us d ↦
      ∃ ts, c.Passes ts d ∧ UseTokens us ts := passes_filterUses _
  refine .bind <| .here <| .bind <| .spanned <| .bind <| (passes_token _).imp fun _ d hd ↦ .bind <|
    (huses d).imp fun us e ⟨ts, he, hus⟩ ↦ .bind <| passes_string.imp fun path f hf ↦ .bind <|
    .optional ((hbody f).imp fun ns g hread ↦ .pure ?_) fun _ _ ↦ .pure ?_
  · dsimp only
    split
    · next htemplate =>
      have hnil : us = [] := List.isEmpty_iff.mp (Bool.and_eq_true _ _ |>.mp htemplate).1
      subst hnil
      cases hus
      refine .pure (heads_braced (hd.append (he.append hf)) .includes hread rfl ?_)
      rintro _ ⟨⟩
      rfl
    · exact nofun
  · dsimp only
    split
    · next htemplate =>
      have hnil : us = [] := List.isEmpty_iff.mp (Bool.and_eq_true _ _ |>.mp htemplate).1
      subst hnil
      cases hus
      exact .pure (heads_bare (hd.append (he.append hf)) .includes rfl nofun)
    · exact .pure (heads_bare (hd.append (he.append hf)) (.includesRaw hus) rfl nofun)

theorem heads_blockStatement : (blockStatement src body).Meets c (Heads src c) :=
  .bind <| .spanned <| .bind <| passes_blockMode.imp fun _ _ ⟨_, hd, hmode⟩ ↦ .bind <|
    passes_ident.imp fun _ e he ↦ .bind <| (hbody e).imp fun _ _ hread ↦ .pure <| .pure
      (heads_braced (hd.append he) (.block hmode) hread rfl nofun)

theorem heads_mixinDefinition : (mixinDefinition src body).Meets c (Heads src c) := by
  refine .bind <| .spanned <| .bind <| (passes_token _).imp fun _ _ hd ↦ .bind <|
    passes_ident.imp fun _ _ he ↦ .bind <| passes_arguments.imp fun _ f ⟨_, hf, hargs⟩ ↦ .bind <|
    (hbody f).imp fun _ _ hread ↦ .pure <| .pure
      (heads_braced ((hd.append he).append hf) (.mixin rfl hargs) hread rfl ?_)
  rintro _ ⟨⟩
  rfl

theorem heads_mixinCall : (mixinCall src body).Meets c (Heads src c) := by
  refine .bind <| .spanned <| .bind <| (passes_token _).imp fun _ _ hd ↦ .bind <|
    passes_ident.imp fun _ _ he ↦ .bind <| passes_arguments.imp fun _ f ⟨_, hf, hargs⟩ ↦ .bind <|
    .optional ((hbody f).imp fun _ _ hread ↦ .pure <| .pure
      (heads_braced ((hd.append he).append hf) (.call rfl hargs) hread rfl ?_)) fun _ _ ↦
    .pure <| .pure (heads_bare ((hd.append he).append hf) (.call rfl hargs) rfl nofun)
  rintro _ ⟨⟩
  rfl

theorem heads_filterStatement : (filterStatement src body).Meets c (Heads src c) := by
  refine .bind <| .spanned <| .bind <| (passes_token _).imp fun _ _ hd ↦ .bind <|
    passes_ident.imp fun _ _ he ↦ .bind <| passes_options.imp fun _ f ⟨_, hf, hoptions⟩ ↦ .bind <|
    (hbody f).imp fun _ _ hread ↦ .pure <| .pure
      (heads_braced ((hd.append he).append hf) (.filter hoptions) hread rfl ?_)
  rintro _ ⟨⟩
  rfl

theorem heads_tagStatement : (tagStatement src body).Meets c (Heads src c) := by
  have hdot (c : Cursor) : (optional (mark .dot)).Meets c fun dot d ↦
      c.Passes (dotTokens dot.isSome) d :=
    .optional ((passes_token _).imp fun _ _ hd ↦ hd) fun _ _ ↦ Cursor.passes_nil
  refine .bind <| .spanned <| .bind <| passes_ident.imp fun _ d hd ↦ .bind <|
    (hdot d).imp fun _ e he ↦ .bind <| .optional ((hbody e).imp fun _ _ hread ↦ .pure <| .pure
      (heads_braced (hd.append he) .tagWith hread rfl ?_)) fun _ _ ↦
    .pure <| .pure (heads_bare (hd.append he) .tag rfl ?_)
  · rintro _ ⟨⟩
    rfl
  · rintro _ ⟨⟩
    rfl

theorem heads_groupStatement : (groupStatement src body).Meets c (Heads src c) :=
  .bind <| .spanned <| (hbody c).imp fun _ _ hread ↦
    .pure (heads_braced Cursor.passes_nil .group hread rfl nofun)

end

/-- Statements are read from the tokens that are taken. -/
theorem reads_statements (depth limit : Nat) (c : Cursor) :
    (upTo (statement src depth) limit).Meets c fun ns d ↦ Reads src c ns d := by
  induction depth generalizing limit c with
  | zero =>
    cases limit with
    | zero => exact .upTo_zero reads_nil
    | succ limit => exact .upTo_succ (fun _ _ ↦ reads_nil) nofun
  | succ depth ih =>
    have hbody (c : Cursor) : (between .braceOpen .braceClose (many (statement src depth))).Meets c
        (ReadsBody src c) := by
      refine .between fun l rest hrest hl ↦ Meets.imp (fun kept ns d hns ↦ ih _ _ kept ns d hns) ?_
      exact fun ns d hns m rest' hrest' hm ↦ ⟨l, rest, m, rest', d, hrest, hl, hns, hrest', hm, rfl⟩
    induction limit generalizing c with
    | zero => exact .upTo_zero reads_nil
    | succ limit more =>
      refine .upTo_succ (fun _ _ ↦ reads_nil) <| Meets.imp (Q := Heads src c) (.firstOf ?_)
        fun n d hn ↦ (more d).imp fun ns e hns ↦ hn ns e hns
      simp only [List.forall_mem_cons]
      exact ⟨heads_inheritStatement, heads_includeStatement hbody, heads_blockStatement hbody,
        heads_mixinDefinition hbody, heads_mixinCall hbody, heads_filterStatement hbody,
        heads_yieldStatement, heads_textStatement, heads_tagStatement hbody,
        heads_groupStatement hbody, by simp⟩

theorem reads_document : (document src).Meets c fun n d ↦
    ∃ ns, n = .group ⟨ns, ⟨src.file, 1⟩⟩ ∧ Reads src c ns d ∧ d.rest = [] := by
  have hall : (do
      let nodes ← many (statement src (c.rest.length + 1))
      endOfText
      pure (Node.group ⟨nodes, ⟨src.file, 1⟩⟩) : Parser Node).Meets c fun n d ↦
        ∃ ns, n = .group ⟨ns, ⟨src.file, 1⟩⟩ ∧ Reads src c ns d ∧ d.rest = [] :=
    .bind fun kept ns d hns ↦ .bind <| .endOfText fun hend ↦
      .pure ⟨ns, rfl, reads_statements _ _ c kept ns d hns, hend⟩
  exact fun kept ↦ hall kept

end Templating.Grammar

namespace Templating

open Grammar Node

/-- The tokens of a text that makes a document form the statements of the document, and each node
stands on the line of its first token. -/
theorem Source.forms_of_document {src : Source} {n : Node} (h : src.document = .ok n) :
    ∃ ls ns firsts, Lexer.lexemes src.text = .ok ls ∧ n = .group ⟨ns, ⟨src.file, 1⟩⟩ ∧
      Forms ls ns firsts ∧ List.Forall₂ (StandsOn src) (listingAll ns) firsts := by
  obtain ⟨ls, hls, hparse⟩ := document_eq_ok.mp h
  obtain ⟨d, hn⟩ := parse_eq_ok.mp hparse
  obtain ⟨ns, rfl, ⟨used, firsts, hused, hforms, hstands⟩, hend⟩ := reads_document none n d hn
  have hall : ls = used := by
    have hrest := hused.rest_eq
    rwa [hend, List.append_nil] at hrest
  exact ⟨ls, ns, firsts, hls, rfl, hall ▸ hforms, hstands⟩

end Templating
