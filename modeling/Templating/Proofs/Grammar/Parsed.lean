import Templating.Document
import Templating.Proofs.Grammar.Results
import Templating.Proofs.Loading.Dependencies
import Templating.Proofs.Node.Unlinked

/-!
# Documents as they are parsed

What holds of every value that a parser yields is told parser by parser (`Parser.Ensures`). Of
the template grammar it is shown that the nodes of a document stand in the file of the text, that
its references bear that file and nothing that loading would fill in
(`Source.fresh_of_documentOf`), and its named blocks nothing that linking would note on them
(`Source.unlinked_of_documentOf`).
-/

namespace Templating

namespace Grammar.Parser

variable {α β : Type}

/-- All values that the parser yields have a property. -/
def Ensures (p : Parser α) (P : α → Prop) : Prop :=
  ∀ c kept a d, (p c kept).result = some (a, d) → P a

variable {P : α → Prop} {Q : β → Prop}

theorem Ensures.meets {p : Parser α} (hp : p.Ensures P) (c : Cursor) :
    p.Meets c fun a _ ↦ P a :=
  hp c

theorem Ensures.trivial (p : Parser α) : p.Ensures fun _ ↦ True := fun _ _ _ _ _ ↦ True.intro

theorem Ensures.pure {a : α} (h : P a) : (Pure.pure a : Parser α).Ensures P := fun _ ↦ Meets.pure h

theorem Ensures.bind {p : Parser α} {f : α → Parser β} (hp : p.Ensures P)
    (hf : ∀ a, P a → (f a).Ensures Q) : (p >>= f).Ensures Q :=
  fun c ↦ Meets.bind <| (hp.meets c).imp fun a d ha ↦ (hf a ha).meets d

theorem Ensures.firstOf {ps : List (Parser α)} (h : ∀ p ∈ ps, p.Ensures P) :
    (firstOf ps).Ensures P :=
  fun c ↦ Meets.firstOf fun p hp ↦ (h p hp).meets c

theorem Ensures.optional {p : Parser α} (hp : p.Ensures P) :
    (Parser.optional p).Ensures fun b ↦ ∀ a ∈ b, P a := by
  refine fun c ↦ Meets.optional ((hp.meets c).imp fun a _ ha ↦ ?_) fun _ _ ↦ nofun
  rintro _ ⟨⟩
  exact ha

theorem Ensures.many {p : Parser α} (hp : p.Ensures P) :
    (Parser.many p).Ensures fun as ↦ ∀ a ∈ as, P a := by
  intro c
  have hall : (Parser.many p).Meets c fun as _ ↦ (∀ a ∈ as, P a) ∧ True :=
    .many_forall (fun c _ ↦ (hp.meets c).imp fun _ _ ha ↦ ⟨ha, True.intro⟩) True.intro
  exact hall.imp fun _ _ h ↦ h.1

theorem Ensures.between {p : Parser α} (hp : p.Ensures P) (opening closing : Mark) :
    (Parser.between opening closing p).Ensures P :=
  (Ensures.trivial _).bind fun _ _ ↦ hp.bind fun _ ha ↦
    (Ensures.trivial _).bind fun _ _ ↦ .pure ha

theorem Ensures.spanned {p : Parser α} (hp : p.Ensures P) :
    (Parser.spanned p).Ensures fun r ↦ P r.1 :=
  (Ensures.trivial _).bind fun _ _ ↦ hp.bind fun _ ha ↦
    (Ensures.trivial _).bind fun _ _ ↦ .pure ha

end Grammar.Parser

theorem Grammar.parse_eq_ok {ls : List Lexeme} {src : Source} {n : Node} :
    Grammar.parse ls src = .ok n ↔
      ∃ d, (Grammar.document src (.start ls src.size) none).result = some (n, d) := by
  unfold Grammar.parse
  match Grammar.document src (.start ls src.size) none with
  | ⟨some (m, d), kept⟩ => simp
  | ⟨none, some f⟩ => simp
  | ⟨none, none⟩ => simp

/-- What it takes for a text to make a document. -/
theorem Source.document_eq_ok {src : Source} {n : Node} :
    src.document = .ok n ↔
      ∃ ls, Lexer.lexemes src.text = .ok ls ∧ Grammar.parse ls src = .ok n := by
  unfold Source.document Source.tokens Source.lexemes
  cases Lexer.lexemes src.text with
  | error e => simp [Except.mapError]
  | ok ls =>
    unfold Source.documentOf
    cases h : Grammar.parse ls src <;> simp [Except.mapError, h]

/-- The reference is as it was parsed in a text of `file`. -/
def Dependency.IsFresh (file : Option Path) (r : Dependency) : Prop :=
  r.file = .unloaded r.file.path file ∧ r.document = none

theorem Dependency.IsFresh.isPending {file : Option Path} {r : Dependency} (h : r.IsFresh file) :
    r.IsPending := by
  refine ⟨?_, h.2⟩
  rw [h.1]
  rfl

/-- All references are as they were parsed in a text of `file`. -/
def Node.Fresh (file : Option Path) (ns : List Node) : Prop :=
  ∀ r ∈ Node.dependenciesAll ns, r.IsFresh file

namespace Node

variable {file : Option Path}

/-- The node is as it was parsed in a text of `file`: it stands there, nothing is loaded for a
reference, and no link has noted anything on a named block. -/
structure IsParsed (file : Option Path) (n : Node) : Prop where
  stands : n.position.file = file
  fresh : ∀ r ∈ n.dependency?, r.IsFresh file
  unlinked : n.isUnlinked

theorem IsParsed.reference {n : Node} {asTemplate : Bool} {path : String} {p : Position}
    (hp : n.position.file = file)
    (hn : n.dependency? = some ⟨asTemplate, .unloaded path file, none, p⟩) (hu : n.isUnlinked) :
    n.IsParsed file := by
  refine ⟨hp, fun r hr ↦ ?_, hu⟩
  obtain rfl := Option.some.inj (hn.symm.trans hr)
  exact ⟨rfl, rfl⟩

theorem IsParsed.other {n : Node} (hp : n.position.file = file) (hn : n.dependency? = none)
    (hu : n.isUnlinked) : n.IsParsed file :=
  ⟨hp, by simp [hn], hu⟩

/-- All nodes, however deep, are as they were parsed. -/
def Parsed (file : Option Path) (ns : List Node) : Prop := ∀ m ∈ listingAll ns, m.IsParsed file

theorem parsed_nil : Parsed file [] := by simp [Parsed]

theorem parsed_of_forall {ns : List Node} (h : ∀ n ∈ ns, Parsed file [n]) : Parsed file ns := by
  induction ns with
  | nil => exact parsed_nil
  | cons n ns ih =>
    rw [List.forall_mem_cons] at h
    have hn := h.1
    have hns := ih h.2
    simp only [Parsed, listingAll_cons, listingAll_nil, List.append_nil] at hn hns ⊢
    exact List.forall_mem_append.mpr ⟨hn, hns⟩

/-- A node with a parsed body. -/
theorem parsed_node {n : Node} (inner : List Node) (hn : n.IsParsed file)
    (h : n.listing = n :: listingAll inner) (hinner : Parsed file inner) : Parsed file [n] := by
  rw [Parsed, listingAll_cons, h, listingAll_nil, List.append_nil, List.forall_mem_cons]
  exact ⟨hn, hinner⟩

theorem Parsed.fresh {ns : List Node} (h : Parsed file ns) : Fresh file ns := by
  intro r hr
  obtain ⟨m, hm, hmr⟩ := List.mem_filterMap.mp hr
  exact (h m hm).fresh r hmr

theorem site_of_dependency? {n : Node} {r : Dependency} (h : n.dependency? = some r) :
    r.site = n.position := by
  cases n with
  | inherits | includes | includesRaw => exact (congrArg Dependency.site (Option.some.inj h)).symm
  | _ => cases h

/-- References are noted where they stand. -/
theorem Parsed.site_file {ns : List Node} (h : Parsed file ns) {r : Dependency}
    (hr : r ∈ dependenciesAll ns) : r.site.file = file := by
  obtain ⟨m, hm, hmr⟩ := List.mem_filterMap.mp hr
  rw [site_of_dependency? hmr]
  exact (h m hm).stands

theorem Parsed.unlinked {ns : List Node} (h : Parsed file ns) : UnlinkedAll ns :=
  fun m hm ↦ (h m hm).unlinked

end Node

namespace Grammar

open Node Grammar.Parser

variable {src : Source} {body : Parser (List Node)}

theorem parsed_inheritStatement :
    (inheritStatement src).Ensures fun n ↦ Parsed src.file [n] :=
  (Ensures.trivial _).bind fun _ _ ↦
    .pure (parsed_node [] (.reference rfl rfl rfl) rfl parsed_nil)

theorem parsed_includeStatement (hb : body.Ensures (Parsed src.file)) :
    (includeStatement src body).Ensures fun n ↦ Parsed src.file [n] := by
  refine (Ensures.trivial _).bind fun c _ ↦ Ensures.bind
    (Ensures.spanned (P := fun x ↦ ∀ ns ∈ x.2.2, Parsed src.file ns) ?_) ?_
  · exact (Ensures.trivial _).bind fun _ _ ↦ (Ensures.trivial _).bind fun _ _ ↦
      (Ensures.trivial _).bind fun _ _ ↦ hb.optional.bind fun _ hnodes ↦ .pure hnodes
  · rintro ⟨⟨filters, path, nodes⟩, s⟩ hnodes
    dsimp only
    split
    · cases nodes with
      | none =>
        exact .pure (parsed_node [] (.reference rfl rfl rfl) rfl parsed_nil)
      | some ns =>
        exact .pure (parsed_node ns (.reference rfl rfl rfl) rfl (hnodes ns rfl))
    · cases nodes with
      | none =>
        exact .pure (parsed_node [] (.reference rfl rfl rfl) rfl parsed_nil)
      | some ns =>
        intro _ _ _ _ h
        cases h

theorem parsed_blockStatement (hb : body.Ensures (Parsed src.file)) :
    (blockStatement src body).Ensures fun n ↦ Parsed src.file [n] := by
  refine Ensures.bind (Ensures.spanned (P := fun x ↦ Parsed src.file x.2.2) ?_) ?_
  · exact (Ensures.trivial _).bind fun _ _ ↦ (Ensures.trivial _).bind fun _ _ ↦
      hb.bind fun _ hnodes ↦ .pure hnodes
  · exact fun ⟨_, _⟩ hnodes ↦ .pure (parsed_node _ (.other rfl rfl rfl) rfl hnodes)

theorem parsed_mixinDefinition (hb : body.Ensures (Parsed src.file)) :
    (mixinDefinition src body).Ensures fun n ↦ Parsed src.file [n] := by
  refine Ensures.bind (Ensures.spanned (P := fun x ↦ Parsed src.file x.2.2) ?_) ?_
  · exact (Ensures.trivial _).bind fun _ _ ↦ (Ensures.trivial _).bind fun _ _ ↦
      (Ensures.trivial _).bind fun _ _ ↦ hb.bind fun _ hnodes ↦ .pure hnodes
  · exact fun ⟨_, _⟩ hnodes ↦ .pure (parsed_node _ (.other rfl rfl rfl) rfl hnodes)

theorem parsed_mixinCall (hb : body.Ensures (Parsed src.file)) :
    (mixinCall src body).Ensures fun n ↦ Parsed src.file [n] := by
  refine Ensures.bind (Ensures.spanned (P := fun x ↦ ∀ ns ∈ x.2.2, Parsed src.file ns) ?_) ?_
  · exact (Ensures.trivial _).bind fun _ _ ↦ (Ensures.trivial _).bind fun _ _ ↦
      (Ensures.trivial _).bind fun _ _ ↦ hb.optional.bind fun _ hnodes ↦ .pure hnodes
  · rintro ⟨⟨name, args, nodes⟩, s⟩ hnodes
    cases nodes with
    | none => exact .pure (parsed_node [] (.other rfl rfl rfl) rfl parsed_nil)
    | some ns => exact .pure (parsed_node _ (.other rfl rfl rfl) rfl (hnodes ns rfl))

theorem parsed_filterStatement (hb : body.Ensures (Parsed src.file)) :
    (filterStatement src body).Ensures fun n ↦ Parsed src.file [n] := by
  refine Ensures.bind (Ensures.spanned (P := fun x ↦ Parsed src.file x.2.2) ?_) ?_
  · exact (Ensures.trivial _).bind fun _ _ ↦ (Ensures.trivial _).bind fun _ _ ↦
      (Ensures.trivial _).bind fun _ _ ↦ hb.bind fun _ hnodes ↦ .pure hnodes
  · exact fun ⟨_, _⟩ hnodes ↦ .pure (parsed_node _ (.other rfl rfl rfl) rfl hnodes)

theorem parsed_yieldStatement : (yieldStatement src).Ensures fun n ↦ Parsed src.file [n] :=
  (Ensures.trivial _).bind fun _ _ ↦ .pure (parsed_node [] (.other rfl rfl rfl) rfl parsed_nil)

theorem parsed_textStatement : (textStatement src).Ensures fun n ↦ Parsed src.file [n] :=
  (Ensures.trivial _).bind fun _ _ ↦ .pure (parsed_node [] (.other rfl rfl rfl) rfl parsed_nil)

theorem parsed_tagStatement (hb : body.Ensures (Parsed src.file)) :
    (tagStatement src body).Ensures fun n ↦ Parsed src.file [n] := by
  refine Ensures.bind (Ensures.spanned (P := fun x ↦ ∀ ns ∈ x.2.2, Parsed src.file ns) ?_) ?_
  · exact (Ensures.trivial _).bind fun _ _ ↦ (Ensures.trivial _).bind fun _ _ ↦
      hb.optional.bind fun _ hnodes ↦ .pure hnodes
  · rintro ⟨⟨name, dot, nodes⟩, s⟩ hnodes
    refine .pure (parsed_node _ (.other rfl rfl rfl) rfl ?_)
    cases nodes with
    | none => exact parsed_nil
    | some ns => exact hnodes ns rfl

theorem parsed_groupStatement (hb : body.Ensures (Parsed src.file)) :
    (groupStatement src body).Ensures fun n ↦ Parsed src.file [n] :=
  hb.spanned.bind fun ⟨_, _⟩ hnodes ↦ .pure (parsed_node _ (.other rfl rfl rfl) rfl hnodes)

theorem parsed_statement (src : Source) (depth : Nat) :
    (statement src depth).Ensures fun n ↦ Parsed src.file [n] := by
  induction depth with
  | zero =>
    intro _ _ _ _ h
    cases h
  | succ depth ih =>
    have hb : (between .braceOpen .braceClose (many (statement src depth))).Ensures
        (Parsed src.file) :=
      .between (fun c kept ns d h ↦ parsed_of_forall (ih.many c kept ns d h)) _ _
    refine Ensures.firstOf ?_
    simp only [List.forall_mem_cons]
    exact ⟨parsed_inheritStatement, parsed_includeStatement hb, parsed_blockStatement hb,
      parsed_mixinDefinition hb, parsed_mixinCall hb, parsed_filterStatement hb,
      parsed_yieldStatement, parsed_textStatement, parsed_tagStatement hb, parsed_groupStatement hb,
      by simp⟩

theorem parsed_document : (document src).Ensures fun n ↦ Parsed src.file [n] := by
  intro c kept n d h
  have hdoc := (parsed_statement src (c.rest.length + 1)).many.bind
    (Q := fun n ↦ Parsed src.file [n]) fun ns hns ↦ (Ensures.trivial endOfText).bind fun _ _ ↦
      .pure (a := Node.group ⟨ns, ⟨src.file, 1⟩⟩)
        (parsed_node ns (.other rfl rfl rfl) rfl (parsed_of_forall hns))
  exact hdoc c kept n d h

theorem parsed_parse {ls : List Lexeme} {n : Node} (h : parse ls src = .ok n) :
    Parsed src.file [n] := by
  obtain ⟨d, hdoc⟩ := parse_eq_ok.mp h
  exact parsed_document _ none n d hdoc

end Grammar

theorem Source.parsed_of_documentOf {src : Source} {ls : List Lexeme} {n : Node}
    (h : src.documentOf ls = .ok n) : Node.Parsed src.file [n] := by
  unfold Source.documentOf at h
  split at h
  · next m hm =>
    cases h
    exact Grammar.parsed_parse hm
  · cases h

/-- The references of a document are parsed as references of the text's file, and not loaded. -/
theorem Source.fresh_of_documentOf {src : Source} {ls : List Lexeme} {n : Node}
    (h : src.documentOf ls = .ok n) : Node.Fresh src.file [n] :=
  (parsed_of_documentOf h).fresh

/-- The blocks of a document are parsed without numbers and lineages. -/
theorem Source.unlinked_of_documentOf {src : Source} {ls : List Lexeme} {n : Node}
    (h : src.documentOf ls = .ok n) : n.Unlinked :=
  Node.unlinkedAll_singleton.mp (parsed_of_documentOf h).unlinked

end Templating
