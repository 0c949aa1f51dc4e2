import Templating.Path

/-!
# Template documents

The tree a template is read into, and in which it is loaded, filtered and linked. A document is
a node, as a rule a group. References to other files keep the loaded document beside them, so a
loaded tree holds every document it depends on.
-/

namespace Templating

/-- A place in a template: the file, if the template has one, and the line, counted from 1. -/
structure Position where
  file : Option Path
  line : Nat
  deriving DecidableEq, Repr, Inhabited

namespace Position

/-- The text shown for a missing file name. -/
def anonymous : String := "<anonymous>"

/-- The file name as it is shown. -/
def fileText (file : Option Path) : String :=
  match file with
  | some p => p.text
  | none => anonymous

/-- A position as it is shown. -/
def toText (p : Position) : String := fileText p.file ++ " line " ++ toString p.line

end Position

/-- Number given to a named block when its document is linked. -/
abbrev BlockId := Nat

/-- How a named block combines with the blocks it overrides. -/
inductive Mode where
  | replace
  | append
  | prepend
  deriving DecidableEq, Repr, Inhabited

/-- The mode as it is written. -/
def Mode.text : Mode → String
  | .replace => "replace"
  | .append => "append"
  | .prepend => "prepend"

/-- A sequence of nodes with the place where it stands. -/
structure Body (α : Type) where
  nodes : List α
  position : Position
  deriving Repr, Inhabited

/-- What a named block holds beside its content. -/
structure BlockHead where
  name : String
  mode : Mode
  position : Position
  /-- Given by the link that declares the block. -/
  id : Option BlockId
  /-- The blocks of the parent document this block was merged into, ancestors first. -/
  parents : Option (List BlockId)
  /-- A block of the same name was open around this one when it was merged. -/
  ignored : Bool
  deriving DecidableEq, Repr, Inhabited

/-- The value of a filter option as written. -/
inductive AttrValue where
  /-- An option named without a value. -/
  | flag
  /-- The text of the value expression. -/
  | expr (text : String)
  deriving DecidableEq, Repr

/-- A filter option. -/
structure Attr where
  name : String
  value : AttrValue
  deriving DecidableEq, Repr

/-- A filter named in a template, with its options. -/
structure FilterUse where
  name : String
  attrs : List Attr
  position : Position
  deriving DecidableEq, Repr

/-- A reference to another file, and what loading found there. -/
structure Reference where
  /-- The path as written. -/
  path : String
  /-- The file that holds the reference. -/
  source : Option Path
  /-- The file referred to. -/
  target : Option Path
  /-- The content of that file. -/
  raw : Option (List UInt8)
  /-- The content as text. -/
  text : Option String
  deriving DecidableEq, Repr, Inhabited

/-- A reference that is still to be loaded. -/
def Reference.unloaded (path : String) (source : Option Path) : Reference :=
  { path, source, target := none, raw := none, text := none }

/-- Loading has filled in the content. -/
def Reference.isLoaded (r : Reference) : Bool := r.text.isSome

/-- What a mixin holds beside its content. -/
structure MixinHead where
  name : String
  /-- The argument list as written, without the parentheses. -/
  args : Option String
  /-- A call, as against a definition. -/
  isCall : Bool
  position : Position
  deriving DecidableEq, Repr

/-- What a tag holds beside its content. -/
structure TagHead where
  name : String
  /-- The content is plain text. -/
  textOnly : Bool
  position : Position
  deriving DecidableEq, Repr

/-- A node of a template document. -/
inductive Node where
  /-- Nodes held together without a name. -/
  | group (body : Body Node)
  /-- Content that an inheriting document can override. -/
  | block (head : BlockHead) (nodes : List Node)
  /-- The statement that a document inherits from another. -/
  | inherits (file : Reference) (document : Option Node) (position : Position)
  /-- Another template in this place, with content for its yield points. -/
  | includes (file : Reference) (document : Option Node) (body : Option (Body Node))
      (position : Position)
  /-- The text of another file in this place, sent through filters. -/
  | includesRaw (file : Reference) (document : Option Node) (filters : List FilterUse)
      (position : Position)
  /-- The definition or the call of a mixin. -/
  | mixin (head : MixinHead) (body : Option (Body Node))
  /-- Content that is rendered by a filter. -/
  | filter (use : FilterUse) (body : Body Node)
  /-- The place for the content of an include site. -/
  | yield (position : Position)
  | text (value : String) (position : Position)
  /-- An element. -/
  | tag (head : TagHead) (body : Body Node)
  deriving Repr

/-- A sequence of nodes of a document. -/
abbrev Block := Body Node

instance : Inhabited Node := ⟨.group default⟩

namespace Node

/-- The name of the kind of a node, as it is shown. -/
def kind : Node → String
  | .group _ => "Block"
  | .block .. => "NamedBlock"
  | .inherits .. => "Extends"
  | .includes .. => "Include"
  | .includesRaw .. => "RawInclude"
  | .mixin .. => "Mixin"
  | .filter .. => "Filter"
  | .yield _ => "YieldBlock"
  | .text .. => "Text"
  | .tag .. => "Tag"

/-- Where a node stands. -/
def position : Node → Position
  | .group b => b.position
  | .block h _ => h.position
  | .inherits _ _ p => p
  | .includes _ _ _ p => p
  | .includesRaw _ _ _ p => p
  | .mixin h _ => h.position
  | .filter u _ => u.position
  | .yield p => p
  | .text _ p => p
  | .tag h _ => h.position

/-- A tag whose content is plain text; it never takes in yielded content. -/
def isTextOnly : Node → Bool
  | .tag h _ => h.textOnly
  | _ => false

/-- The nested sequence of mixins, filters, tags and includes. -/
def nestedBlock : Node → Option Block
  | .mixin _ b => b
  | .filter _ b => some b
  | .tag _ b => some b
  | .includes _ _ b _ => b
  | _ => none

/-- The node with another nested sequence, for the kinds that carry one. -/
def withNestedBlock (n : Node) (b : Block) : Node :=
  match n with
  | .mixin h (some _) => .mixin h (some b)
  | .filter u _ => .filter u b
  | .tag h _ => .tag h b
  | .includes f d (some _) p => .includes f d (some b) p
  | _ => n

/-- The file reference of a node. -/
def reference? : Node → Option Reference
  | .inherits f _ _ => some f
  | .includes f _ _ _ => some f
  | .includesRaw f _ _ _ => some f
  | _ => none

/-- A mixin definition, which shows its content only where it is called. -/
def isMixinDefinition : Node → Bool
  | .mixin h _ => !h.isCall
  | _ => false

end Node

end Templating
