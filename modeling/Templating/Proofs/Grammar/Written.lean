import Templating.Proofs.Grammar.Options
import Templating.Proofs.Grammar.Parsed
import Templating.Proofs.Grammar.SameTokens

/-!
# Documents that can be written

What holds of all statements that are read from a text, as far as writing them down again depends
on it (`Written`): names are words, values and arguments can be captured, and where a body could
follow and does not, no group follows either.
-/

namespace Templating

open Lexer Grammar Grammar.Parser Node

/-- The first of the nodes is a group. -/
def Node.startsWithGroup : List Node → Bool
  | .group _ :: _ => true
  | _ => false

/-- Statements that can be written in a text of `file`. -/
inductive Written (file : Option Path) : List Node → Prop
  | nil : Written file []
  | group {p : Position} {inner rest : List Node} (hp : p.file = file) (hinner : Written file inner)
    (hrest : Written file rest) : Written file (.group ⟨inner, p⟩ :: rest)
  | block {name : String} {mode : Mode} {p : Position} {inner rest : List Node}
    (hname : IsName name) (hp : p.file = file) (hinner : Written file inner)
    (hrest : Written file rest) :
    Written file (.block ⟨name, mode, p, none, none, false⟩ inner :: rest)
  | inherits {path : String} {p : Position} {rest : List Node} (hp : p.file = file)
    (hrest : Written file rest) :
    Written file (.inherits (.unloaded path file) none p :: rest)
  | includes {path : String} {p : Position} {rest : List Node} (htemplate : namesTemplate path)
    (hp : p.file = file) (hgroup : startsWithGroup rest = false) (hrest : Written file rest) :
    Written file (.includes (.unloaded path file) none none p :: rest)
  | includesWith {path : String} {p q : Position} {inner rest : List Node}
    (htemplate : namesTemplate path) (hp : p.file = file) (hq : q.file = file)
    (hinner : Written file inner) (hrest : Written file rest) :
    Written file (.includes (.unloaded path file) none (some ⟨inner, q⟩) p :: rest)
  | includesRaw {path : String} {us : List FilterUse} {p : Position} {rest : List Node}
    (hraw : (us.isEmpty && namesTemplate path) = false) (hus : ∀ u ∈ us, u.IsWritten file)
    (hp : p.file = file) (hgroup : startsWithGroup rest = false) (hrest : Written file rest) :
    Written file (.includesRaw (.unloaded path file) none us p :: rest)
  | mixin {name : String} {args : Option String} {isCall : Bool} {p q : Position}
    {inner rest : List Node} (hname : IsName name)
    (hargs : ∀ text ∈ args, IsArguments text.toList) (hp : p.file = file) (hq : q.file = file)
    (hinner : Written file inner) (hrest : Written file rest) :
    Written file (.mixin ⟨name, args, isCall, p⟩ (some ⟨inner, q⟩) :: rest)
  | call {name : String} {args : Option String} {p : Position} {rest : List Node}
    (hname : IsName name) (hargs : ∀ text ∈ args, IsArguments text.toList) (hp : p.file = file)
    (hgroup : startsWithGroup rest = false) (hrest : Written file rest) :
    Written file (.mixin ⟨name, args, true, p⟩ none :: rest)
  | filter {u : FilterUse} {q : Position} {inner rest : List Node} (hu : u.IsWritten file)
    (hq : q.file = file) (hinner : Written file inner) (hrest : Written file rest) :
    Written file (.filter u ⟨inner, q⟩ :: rest)
  | yield {p : Position} {rest : List Node} (hp : p.file = file) (hrest : Written file rest) :
    Written file (.yield p :: rest)
  | text {value : String} {p : Position} {rest : List Node} (hp : p.file = file)
    (hrest : Written file rest) : Written file (.text value p :: rest)
  | tag {name : String} {textOnly : Bool} {p q : Position} {inner rest : List Node}
    (hname : IsName name) (hp : p.file = file) (hq : q.file = file) (hinner : Written file inner)
    (hrest : Written file rest) :
    Written file (.tag ⟨name, textOnly, p⟩ ⟨inner, q⟩ :: rest)

/-- What stands first of statements that can be written, does so behind the nodes before it. -/
theorem Written.exists_of_mem {file : Option Path} {ns : List Node} {m : Node}
    (h : Written file ns) (hm : m ∈ listingAll ns) : ∃ rest, Written file (m :: rest) := by
  have hcons (inner : List Node) {n : Node} {rest : List Node}
      (hn : n.listing = n :: listingAll inner) (h : Written file (n :: rest))
      (hinner : m ∈ listingAll inner → ∃ rest, Written file (m :: rest))
      (hrest : m ∈ listingAll rest → ∃ rest, Written file (m :: rest))
      (hm : m ∈ listingAll (n :: rest)) : ∃ rest, Written file (m :: rest) := by
    rw [listingAll_cons, hn, List.cons_append, List.mem_cons, List.mem_append] at hm
    rcases hm with rfl | hm | hm
    · exact ⟨rest, h⟩
    · exact hinner hm
    · exact hrest hm
  induction h with
  | nil => cases hm
  | group hp hi hr ihi ih => exact hcons _ rfl (.group hp hi hr) ihi ih hm
  | block hname hp hi hr ihi ih => exact hcons _ rfl (.block hname hp hi hr) ihi ih hm
  | inherits hp hr ih => exact hcons [] rfl (.inherits hp hr) nofun ih hm
  | includes ht hp hg hr ih => exact hcons [] rfl (.includes ht hp hg hr) nofun ih hm
  | includesWith ht hp hq hi hr ihi ih => exact hcons _ rfl (.includesWith ht hp hq hi hr) ihi ih hm
  | includesRaw ht hu hp hg hr ih => exact hcons [] rfl (.includesRaw ht hu hp hg hr) nofun ih hm
  | mixin hname ha hp hq hi hr ihi ih => exact hcons _ rfl (.mixin hname ha hp hq hi hr) ihi ih hm
  | call hname ha hp hg hr ih => exact hcons [] rfl (.call hname ha hp hg hr) nofun ih hm
  | filter hu hq hi hr ihi ih => exact hcons _ rfl (.filter hu hq hi hr) ihi ih hm
  | yield hp hr ih => exact hcons [] rfl (.yield hp hr) nofun ih hm
  | text hp hr ih => exact hcons [] rfl (.text hp hr) nofun ih hm
  | tag hname hp hq hi hr ihi ih => exact hcons _ rfl (.tag hname hp hq hi hr) ihi ih hm

variable {src : Source} {body : Parser (List Node)} {c d : Cursor} {n : Node}

/-- The node is read from one place to another so that it can be written before whatever is read
behind it: a group is read where a body can be read, and where one cannot no group follows. -/
structure Precedes (src : Source) (body : Parser (List Node)) (c : Cursor) (n : Node) (d : Cursor) :
    Prop where
  covers : src.Covers d
  cons : ∀ rest, Written src.file rest → (startsWithGroup rest → ¬ body.Refuses d) →
    Written src.file (n :: rest)
  group : startsWithGroup [n] → ¬ body.Refuses c

/-- A parser of bodies that reads statements that can be written, whatever failures are kept. -/
structure ReadsBodies (src : Source) (body : Parser (List Node)) : Prop where
  meets : ∀ {c}, src.Covers c → body.Meets c fun ns d ↦ Written src.file ns ∧ src.Covers d
  refuses : ∀ {c kept}, (body c kept).result = none → body.Refuses c

theorem meets_inheritStatement (h : src.Covers c) :
    (inheritStatement src).Meets c (Precedes src body c) :=
  .bind <| .spanned <| .bind <| (meets_token h _).imp fun _ _ hd ↦ .string fun _ _ _ hrest _ ↦
    .pure ⟨hd.next hrest, fun _ hwritten _ ↦ .inherits rfl hwritten, nofun⟩

theorem meets_yieldStatement (h : src.Covers c) :
    (yieldStatement src).Meets c (Precedes src body c) :=
  .bind <| .spanned <| (meets_token h _).imp fun _ _ hd ↦
    .pure ⟨hd, fun _ hwritten _ ↦ .yield rfl hwritten, nofun⟩

theorem meets_textStatement (h : src.Covers c) :
    (textStatement src).Meets c (Precedes src body c) :=
  .bind <| .spanned <| .string fun _ _ _ hrest _ ↦
    .pure ⟨h.next hrest, fun _ hwritten _ ↦ .text rfl hwritten, nofun⟩

theorem meets_optionalArguments (h : src.Covers c) :
    (optional (arguments src)).Meets c fun args d ↦
      (∀ text ∈ args, IsArguments text.toList) ∧ src.Covers d := by
  refine .optional ((meets_arguments h).imp fun text d ⟨htext, hd⟩ ↦ ⟨?_, hd⟩) fun _ _ ↦ ⟨nofun, h⟩
  rintro _ ⟨⟩
  exact htext

theorem meets_optionalAttrs (h : src.Covers c) :
    (optional (attrs src)).Meets c fun as d ↦ (∀ a ∈ as.getD [], a.IsWritten) ∧ src.Covers d :=
  .optional (meets_attrs h) fun _ _ ↦ ⟨nofun, h⟩

theorem meets_blockMode (h : src.Covers c) : blockMode.Meets c fun _ d ↦ src.Covers d := by
  have hword : ∀ (k : Keyword) (m : Mode) {c : Cursor}, src.Covers c →
      (do keyword k; pure m : Parser Mode).Meets c fun _ d ↦ src.Covers d :=
    fun k m _ h ↦ .bind <| (meets_token h _).imp fun _ _ hd ↦ .pure hd
  refine .firstOf ?_
  simp only [List.forall_mem_cons]
  refine ⟨.bind <| (meets_token h _).imp fun _ d hd ↦ .bind <| .optional (.firstOf ?_) fun _ _ ↦
    .pure hd, hword _ _ h, hword _ _ h, by simp⟩
  simp only [List.forall_mem_cons]
  exact ⟨(hword _ _ hd).imp fun _ _ he ↦ .pure he, (hword _ _ hd).imp fun _ _ he ↦ .pure he,
    (hword _ _ hd).imp fun _ _ he ↦ .pure he, by simp⟩

theorem startsWithGroup_cons (n : Node) (rest : List Node) :
    startsWithGroup (n :: rest) = startsWithGroup [n] := by
  cases n <;> rfl

section

variable (hbody : ReadsBodies src body)
include hbody

theorem not_startsWithGroup {kept : Option Failure} {rest : List Node}
    (hnone : (body c kept).result = none) (h : startsWithGroup rest → ¬ body.Refuses c) :
    startsWithGroup rest = false := by
  rw [← Bool.not_eq_true]
  exact fun hgroup ↦ h hgroup (hbody.refuses hnone)

theorem meets_optionalBody (h : src.Covers c) :
    (optional body).Meets c fun ns d ↦ (∀ inner ∈ ns, Written src.file inner) ∧ src.Covers d ∧
      (ns = none → ∀ rest, (startsWithGroup rest → ¬ body.Refuses d) →
        startsWithGroup rest = false) := by
  refine .optional ((hbody.meets h).imp fun ns d ⟨hns, hd⟩ ↦ ⟨?_, hd, nofun⟩) fun kept hnone ↦
    ⟨nofun, h, fun _ rest hrest ↦ not_startsWithGroup hbody hnone hrest⟩
  rintro _ ⟨⟩
  exact hns

theorem meets_includeStatement (h : src.Covers c) :
    (includeStatement src body).Meets c (Precedes src body c) := by
  refine .bind <| .here <| .bind <| .spanned <| .bind <| (meets_token h _).imp fun _ d hd ↦ .bind <|
    (Meets.many_forall (fun _ ↦ meets_filterUse) hd).imp fun us e ⟨hus, he⟩ ↦ .bind <|
    .string fun l rest path hrest _ ↦ .bind <|
    (meets_optionalBody hbody (he.next hrest)).imp fun ns f ⟨hns, hf, hnone⟩ ↦ .pure ?_
  dsimp only
  split
  · next htemplate =>
    rw [Bool.and_eq_true] at htemplate
    refine .pure ⟨hf, fun more hmore hgroup ↦ ?_, nofun⟩
    cases ns with
    | none => exact .includes htemplate.2 rfl (hnone rfl more hgroup) hmore
    | some inner => exact .includesWith htemplate.2 rfl rfl (hns inner rfl) hmore
  · next hraw =>
    cases ns with
    | none =>
      refine .pure ⟨hf, fun more hmore hgroup ↦ ?_, nofun⟩
      exact .includesRaw (by simpa using hraw) hus rfl (hnone rfl more hgroup) hmore
    | some inner => exact nofun

theorem meets_blockStatement (h : src.Covers c) :
    (blockStatement src body).Meets c (Precedes src body c) :=
  .bind <| .spanned <| .bind <| (meets_blockMode h).imp fun _ _ hd ↦ .bind <|
    (meets_ident hd).imp fun _ _ ⟨hname, he⟩ ↦ .bind <|
    (hbody.meets he).imp fun _ _ ⟨hns, hf⟩ ↦ .pure <| .pure
      ⟨hf, fun _ hmore _ ↦ .block hname rfl hns hmore, nofun⟩

theorem meets_mixinDefinition (h : src.Covers c) :
    (mixinDefinition src body).Meets c (Precedes src body c) :=
  .bind <| .spanned <| .bind <| (meets_token h _).imp fun _ _ hd ↦ .bind <|
    (meets_ident hd).imp fun _ _ ⟨hname, he⟩ ↦ .bind <|
    (meets_optionalArguments he).imp fun _ _ ⟨hargs, hf⟩ ↦ .bind <|
    (hbody.meets hf).imp fun _ _ ⟨hns, hg⟩ ↦ .pure <| .pure
      ⟨hg, fun _ hmore _ ↦ .mixin hname hargs rfl rfl hns hmore, nofun⟩

theorem meets_mixinCall (h : src.Covers c) :
    (mixinCall src body).Meets c (Precedes src body c) := by
  refine .bind <| .spanned <| .bind <| (meets_token h _).imp fun _ _ hd ↦ .bind <|
    (meets_ident hd).imp fun _ _ ⟨hname, he⟩ ↦ .bind <|
    (meets_optionalArguments he).imp fun _ _ ⟨hargs, hf⟩ ↦ .bind <|
    (meets_optionalBody hbody hf).imp fun ns _ ⟨hns, hg, hnone⟩ ↦ .pure <| .pure
      ⟨hg, fun more hmore hgroup ↦ ?_, nofun⟩
  cases ns with
  | none => exact .call hname hargs rfl (hnone rfl more hgroup) hmore
  | some inner => exact .mixin hname hargs rfl rfl (hns inner rfl) hmore

theorem meets_filterStatement (h : src.Covers c) :
    (filterStatement src body).Meets c (Precedes src body c) :=
  .bind <| .spanned <| .bind <| (meets_token h _).imp fun _ _ hd ↦ .bind <|
    (meets_ident hd).imp fun _ _ ⟨hname, he⟩ ↦ .bind <|
    (meets_optionalAttrs he).imp fun _ _ ⟨has, hf⟩ ↦ .bind <|
    (hbody.meets hf).imp fun _ _ ⟨hns, hg⟩ ↦ .pure <| .pure
      ⟨hg, fun _ hmore _ ↦ .filter ⟨hname, has, rfl⟩ rfl hns hmore, nofun⟩

theorem meets_tagStatement (h : src.Covers c) :
    (tagStatement src body).Meets c (Precedes src body c) := by
  refine .bind <| .spanned <| .bind <| (meets_ident h).imp fun _ _ ⟨hname, hd⟩ ↦ .bind <|
    (Meets.optional (meets_token hd _) fun _ _ ↦ hd).imp fun _ _ he ↦ .bind <|
    (meets_optionalBody hbody he).imp fun ns _ ⟨hns, hf, _⟩ ↦ .pure <| .pure
      ⟨hf, fun more hmore _ ↦ .tag hname rfl rfl ?_ hmore, nofun⟩
  cases ns with
  | none => exact .nil
  | some inner => exact hns inner rfl

theorem meets_groupStatement (h : src.Covers c) :
    (groupStatement src body).Meets c (Precedes src body c) :=
  .bind <| .spanned <| .of_not_refuses fun hsome ↦ (hbody.meets h).imp fun _ _ ⟨hns, hd⟩ ↦
    .pure ⟨hd, fun _ hmore _ ↦ .group rfl hns hmore, fun _ ↦ hsome⟩

end

theorem meets_statements {p : Parser Node} (limit : Nat)
    (hp : ∀ c, src.Covers c → p.Meets c (Precedes src body c)) (h : src.Covers c) :
    (upTo p limit).Meets c fun ns d ↦ Written src.file ns ∧ src.Covers d ∧
      (startsWithGroup ns → ¬ body.Refuses c) := by
  induction limit generalizing c with
  | zero => exact .upTo_zero ⟨.nil, h, nofun⟩
  | succ limit ih =>
    -- What the first statement asks of those behind it, the induction knows of where they begin.
    refine .upTo_succ (fun _ _ ↦ ⟨.nil, h, nofun⟩) <| (hp c h).imp fun n d hn ↦ ?_
    refine (ih hn.covers).imp fun ns e ⟨hns, he, hgroup⟩ ↦ ⟨hn.cons ns hns hgroup, he, ?_⟩
    rw [startsWithGroup_cons]
    exact hn.group

/-- The parser of bodies whose statements are nested up to `depth`. -/
abbrev bodyWithin (src : Source) (depth : Nat) : Parser (List Node) :=
  between .braceOpen .braceClose (many (statement src depth))

theorem refuses_body_of_result {depth : Nat} {kept : Option Failure}
    (h : (bodyWithin src depth c kept).result = none) :
    (bodyWithin src depth).Refuses c := by
  intro kept'
  rcases related_body (related_statement id src src rfl depth) c c kept kept' rfl with
    ⟨-, hnone⟩ | ⟨_, _, _, _, -, -, hsome, -⟩
  · exact hnone
  · cases h.symm.trans hsome

theorem readsBodies {depth : Nat}
    (h : ∀ limit c, src.Covers c → (upTo (statement src depth) limit).Meets c fun ns d ↦
      Written src.file ns ∧ src.Covers d) :
    ReadsBodies src (bodyWithin src depth) := by
  refine ⟨fun {c} hc ↦ .between fun l rest hrest _ ↦ ?_, refuses_body_of_result⟩
  refine Meets.imp (fun kept ns d hns ↦ h _ _ (hc.next hrest) kept ns d hns) ?_
  exact fun ns d ⟨hns, hd⟩ m rest' hrest' _ ↦ ⟨hns, hd.next hrest'⟩

theorem meets_statement {depth : Nat} (hbody : ReadsBodies src (bodyWithin src depth))
    (h : src.Covers c) :
    (statement src (depth + 1)).Meets c (Precedes src (bodyWithin src depth) c) := by
  refine .firstOf ?_
  simp only [List.forall_mem_cons]
  exact ⟨meets_inheritStatement h, meets_includeStatement hbody h, meets_blockStatement hbody h,
    meets_mixinDefinition hbody h, meets_mixinCall hbody h, meets_filterStatement hbody h,
    meets_yieldStatement h, meets_textStatement h, meets_tagStatement hbody h,
    meets_groupStatement hbody h, by simp⟩

/-- The statements read from a text can be written. -/
theorem meets_written (depth limit : Nat) (c : Cursor) (h : src.Covers c) :
    (upTo (statement src depth) limit).Meets c fun ns d ↦ Written src.file ns ∧ src.Covers d := by
  induction depth generalizing limit c with
  | zero =>
    cases limit with
    | zero => exact .upTo_zero ⟨.nil, h⟩
    | succ limit => exact .upTo_succ (fun _ _ ↦ ⟨.nil, h⟩) nofun
  | succ depth ih =>
    have hstatements := meets_statements limit (fun _ ↦ meets_statement (readsBodies ih)) h
    exact hstatements.imp fun _ _ ⟨hns, hd, _⟩ ↦ ⟨hns, hd⟩

theorem Source.covers_start {ls : List Lexeme} (h : Lexer.lexemes src.text = .ok ls) :
    src.Covers (.start ls src.size) :=
  ⟨src.text.toList, [], rfl, lexed_iff.mpr h⟩

theorem meets_document (h : src.Covers c) :
    (document src).Meets c fun n _ ↦
      ∃ ns, n = .group ⟨ns, ⟨src.file, 1⟩⟩ ∧ Written src.file ns := by
  have hall : (do
      let nodes ← many (statement src (c.rest.length + 1))
      endOfText
      pure (Node.group ⟨nodes, ⟨src.file, 1⟩⟩) : Parser Node).Meets c fun n _ ↦
        ∃ ns, n = .group ⟨ns, ⟨src.file, 1⟩⟩ ∧ Written src.file ns :=
    .bind fun kept ns d hns ↦ .bind <| .endOfText fun _ ↦
      .pure ⟨ns, rfl, (meets_written _ _ c h kept ns d hns).1⟩
  exact fun kept ↦ hall kept

/-- The document that is read from a text is a group of statements that can be written. -/
theorem Source.written_of_document {n : Node} (h : src.document = .ok n) :
    ∃ ns, n = .group ⟨ns, ⟨src.file, 1⟩⟩ ∧ Written src.file ns := by
  obtain ⟨ls, hls, hn⟩ := document_eq_ok.mp h
  obtain ⟨d, hn⟩ := parse_eq_ok.mp hn
  exact meets_document (covers_start hls) none n d hn

end Templating
