import Templating.Node

/-!
# Sameness of documents

Two trees are the same when they differ at most in the spelling of file names.
-/

namespace Templating

/-- Sameness of optional values. -/
def sameOption {α : Type} (same : α → α → Bool) : Option α → Option α → Bool
  | none, none => true
  | some a, some b => same a b
  | _, _ => false

/-- Sameness of lists, member by member. -/
def sameList {α : Type} (same : α → α → Bool) : List α → List α → Bool
  | [], [] => true
  | a :: as, b :: bs => same a b && sameList same as bs
  | _, _ => false

/-- The same line of the same file. -/
def Position.same (p q : Position) : Bool := sameOption Path.same p.file q.file && p.line == q.line

/-- The same head, up to the spelling of file names. -/
def BlockHead.same (a b : BlockHead) : Bool :=
  a.name == b.name && a.mode == b.mode && a.position.same b.position && a.id == b.id &&
    a.parents == b.parents && a.ignored == b.ignored

/-- The same filter with the same options, up to the spelling of file names. -/
def FilterUse.same (a b : FilterUse) : Bool :=
  a.name == b.name && a.attrs == b.attrs && a.position.same b.position

/-- The same reference, up to the spelling of file names. -/
def Reference.same (a b : Reference) : Bool :=
  a.path == b.path && sameOption Path.same a.source b.source &&
    sameOption Path.same a.target b.target && a.raw == b.raw && a.text == b.text

/-- The same head, up to the spelling of file names. -/
def MixinHead.same (a b : MixinHead) : Bool :=
  a.name == b.name && a.args == b.args && a.isCall == b.isCall && a.position.same b.position

/-- The same head, up to the spelling of file names. -/
def TagHead.same (a b : TagHead) : Bool :=
  a.name == b.name && a.textOnly == b.textOnly && a.position.same b.position

namespace Node

mutual

/-- The same tree, up to the spelling of file names. -/
def same : Node → Node → Bool
  | .group ⟨ns, p⟩, .group ⟨ms, q⟩ => p.same q && sameAll ns ms
  | .block g ns, .block h ms => g.same h && sameAll ns ms
  | .inherits f d p, .inherits g e q => f.same g && sameDocument d e && p.same q
  | .includes f d b p, .includes g e c q =>
    f.same g && sameDocument d e && sameBody b c && p.same q
  | .includesRaw f d us p, .includesRaw g e vs q =>
    f.same g && sameDocument d e && sameList FilterUse.same us vs && p.same q
  | .mixin g b, .mixin h c => g.same h && sameBody b c
  | .filter u ⟨ns, p⟩, .filter v ⟨ms, q⟩ => u.same v && p.same q && sameAll ns ms
  | .yield p, .yield q => p.same q
  | .text v p, .text w q => v == w && p.same q
  | .tag g ⟨ns, p⟩, .tag h ⟨ms, q⟩ => g.same h && p.same q && sameAll ns ms
  | _, _ => false
  termination_by structural n => n

/-- Sameness of node sequences. -/
def sameAll : List Node → List Node → Bool
  | [], [] => true
  | n :: ns, m :: ms => same n m && sameAll ns ms
  | _, _ => false
  termination_by structural ns => ns

/-- Sameness of loaded documents. -/
def sameDocument : Option Node → Option Node → Bool
  | none, none => true
  | some d, some e => same d e
  | _, _ => false
  termination_by structural d => d

/-- Sameness of nested sequences. -/
def sameBody : Option (Body Node) → Option (Body Node) → Bool
  | none, none => true
  | some ⟨ns, p⟩, some ⟨ms, q⟩ => p.same q && sameAll ns ms
  | _, _ => false
  termination_by structural b => b

end

end Node

end Templating
