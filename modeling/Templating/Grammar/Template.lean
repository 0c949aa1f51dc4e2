import Templating.Grammar.Parser
import Templating.Node
import Templating.Source
import Templating.Text.Blank

/-!
# The template grammar

A document is a sequence of statements up to the end of the text. A statement begins with a
keyword or a mark that tells its kind; a name begins an element. The body of a statement is a
sequence of statements in braces, and stands where the statement stands.
-/

namespace Templating.Grammar

open Grammar.Parser

/-- The extension of files that are templates. -/
def templateExtension : String := "tmpl"

/-- A written path names a template. -/
def namesTemplate (path : String) : Bool := (Path.mk path).extension? == some templateExtension

/-- The position of a span. -/
def positionAt (src : Source) (s : Span) : Position := ⟨src.file, src.lineOf s.start⟩

/-- The text of a span without the blanks around it. -/
def captured (src : Source) (s : Span) : String :=
  String.ofList (Text.trimChars (src.slice s))

/-- Tokens in balanced brackets. `depth` bounds the nesting. -/
def bracketed : Nat → Parser Unit
  | 0 => stuck
  | depth + 1 =>
    let inner : Parser Unit := do
      let _ ← many (firstOf [bracketed depth, passing fun t => !t.isBracket])
      pure ()
    firstOf
      [between .parenOpen .parenClose inner,
        between .bracketOpen .bracketClose inner,
        between .braceOpen .braceClose inner]

/-- Tokens in balanced brackets; every level takes a token. -/
def balanced : Parser Unit := fun c kept => bracketed (c.rest.length + 1) c kept

/-- One bracketed part or one token of an option value. -/
def valuePart : Parser Unit :=
  firstOf [balanced, passing fun t => t != .mark .comma && !t.isBracket]

/-- The text of an option value, up to a comma or closing bracket of its own level. -/
def optionValue (src : Source) : Parser String := do
  let (_, s) ← spanned (do valuePart; many valuePart)
  pure (captured src s)

/-- A filter option. -/
def attr (src : Source) : Parser Attr := do
  let name ← ident
  match ← optional (do mark .equals; optionValue src) with
  | some text => pure ⟨name, .expr text⟩
  | none => pure ⟨name, .flag⟩

/-- Filter options in parentheses. -/
def attrs (src : Source) : Parser (List Attr) :=
  between .parenOpen .parenClose (separated (attr src) (mark .comma))

/-- The argument list of a mixin, kept as it is written. -/
def arguments (src : Source) : Parser String :=
  between .parenOpen .parenClose do
    let (_, s) ← spanned (many (passing fun t => t != .mark .parenClose))
    pure (captured src s)

/-- A filter named behind a colon, with its options. -/
def filterUse (src : Source) : Parser FilterUse := do
  let ((name, options), s) ← spanned (do
    mark .colon
    let name ← ident
    let options ← optional (attrs src)
    pure (name, options.getD []))
  pure ⟨name, options, positionAt src s⟩

/-- How a block keyword, with the mode that may follow it, sets the mode of a block. -/
def blockMode : Parser Mode :=
  firstOf
    [do
      keyword .block
      let mode ← optional (firstOf
        [do keyword .append; pure Mode.append,
          do keyword .prepend; pure Mode.prepend,
          do keyword .replace; pure Mode.replace])
      pure (mode.getD .replace),
     do keyword .append; pure .append,
     do keyword .prepend; pure .prepend]

section Statements

variable (src : Source) (body : Parser (List Node))

/-- The statement that a document inherits from another. -/
def inheritStatement : Parser Node := do
  let (path, s) ← spanned (do keyword .inherits; string)
  pure (.inherits (.unloaded path src.file) none (positionAt src s))

/-- Refuse content for an include of a file that is no template. This discards what other
alternatives left behind. -/
def refuseRawBody (c : Cursor) (s : Span) : Parser Node := fun _ _ =>
  ⟨none, some ⟨c.index, s, .rawIncludeBody⟩⟩

/-- An include, of a template when no filter is named and the path says so. -/
def includeStatement : Parser Node := do
  let c ← here
  let ((filters, path, nodes), s) ← spanned (do
    keyword .includes
    let filters ← many (filterUse src)
    let path ← string
    let nodes ← optional body
    pure (filters, path, nodes))
  let position := positionAt src s
  let file := Reference.unloaded path src.file
  if filters.isEmpty && namesTemplate path then
    pure (.includes file none (nodes.map fun ns => ⟨ns, position⟩) position)
  else
    match nodes with
    | some _ => refuseRawBody c s
    | none => pure (.includesRaw file none filters position)

/-- A named block. -/
def blockStatement : Parser Node := do
  let ((mode, name, nodes), s) ← spanned (do
    let mode ← blockMode
    let name ← ident
    let nodes ← body
    pure (mode, name, nodes))
  pure (.block ⟨name, mode, positionAt src s, none, none, false⟩ nodes)

/-- The definition of a mixin. -/
def mixinDefinition : Parser Node := do
  let ((name, args, nodes), s) ← spanned (do
    keyword .mixin
    let name ← ident
    let args ← optional (arguments src)
    let nodes ← body
    pure (name, args, nodes))
  let position := positionAt src s
  pure (.mixin ⟨name, args, false, position⟩ (some ⟨nodes, position⟩))

/-- The call of a mixin. -/
def mixinCall : Parser Node := do
  let ((name, args, nodes), s) ← spanned (do
    mark .plus
    let name ← ident
    let args ← optional (arguments src)
    let nodes ← optional body
    pure (name, args, nodes))
  let position := positionAt src s
  pure (.mixin ⟨name, args, true, position⟩ (nodes.map fun ns => ⟨ns, position⟩))

/-- Content for a filter. -/
def filterStatement : Parser Node := do
  let ((name, options, nodes), s) ← spanned (do
    mark .colon
    let name ← ident
    let options ← optional (attrs src)
    let nodes ← body
    pure (name, options.getD [], nodes))
  let position := positionAt src s
  pure (.filter ⟨name, options, position⟩ ⟨nodes, position⟩)

/-- The place for the content of an include site. -/
def yieldStatement : Parser Node := do
  let (_, s) ← spanned (keyword .yield)
  pure (.yield (positionAt src s))

/-- Literal text. -/
def textStatement : Parser Node := do
  let (value, s) ← spanned string
  pure (.text value (positionAt src s))

/-- An element; a dot behind its name makes its content plain text. -/
def tagStatement : Parser Node := do
  let ((name, dot, nodes), s) ← spanned (do
    let name ← ident
    let dot ← optional (mark .dot)
    let nodes ← optional body
    pure (name, dot, nodes))
  let position := positionAt src s
  pure (.tag ⟨name, dot.isSome, position⟩ ⟨nodes.getD [], position⟩)

/-- Nodes held together without a name. -/
def groupStatement : Parser Node := do
  let (nodes, s) ← spanned body
  pure (.group ⟨nodes, positionAt src s⟩)

end Statements

/-- A statement. `depth` bounds the nesting of bodies. -/
def statement (src : Source) : Nat → Parser Node
  | 0 => stuck
  | depth + 1 =>
    let body := between .braceOpen .braceClose (many (statement src depth))
    firstOf
      [inheritStatement src, includeStatement src body, blockStatement src body,
        mixinDefinition src body, mixinCall src body, filterStatement src body,
        yieldStatement src, textStatement src, tagStatement src body, groupStatement src body]

/-- A document over the tokens ahead; every level of bodies takes a token. -/
def document (src : Source) : Parser Node := fun c kept =>
  (do
    let nodes ← many (statement src (c.rest.length + 1))
    endOfText
    pure (Node.group ⟨nodes, ⟨src.file, 1⟩⟩) : Parser Node) c kept

/-- Read tokens as a document. -/
def parse (ls : List Lexeme) (src : Source) : Except Failure Node :=
  match document src (Cursor.start ls src.size) none with
  | ⟨some (n, _), _⟩ => .ok n
  | ⟨none, some f⟩ => .error f
  | ⟨none, none⟩ => .error ⟨0, (Cursor.start ls src.size).span, .unexpected none []⟩

end Templating.Grammar
