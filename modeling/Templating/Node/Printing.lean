import Templating.Node
import Templating.Token

/-!
# Printed documents

A document as a template text, with a line for every statement: each node in its own form, bodies in
braces, texts and paths in double quotes, and option values and argument lists as they were
written. Loaded documents are not printed. What a printed document keeps of the tree is all but the
line numbers (`Node.withoutLines`).
-/

namespace Templating

/-- A character inside double quotes. -/
def quotedLetter (c : Char) : List Char := if c = '"' ∨ c = '\\' then ['\\', c] else [c]

/-- A text in double quotes. -/
def printedText (s : String) : List Char := '"' :: (s.toList.flatMap quotedLetter ++ ['"'])

/-- A filter option. -/
def Attr.printed (a : Attr) : List Char :=
  match a.value with
  | .flag => a.name.toList
  | .expr text => a.name.toList ++ '=' :: text.toList

/-- Filter options in parentheses, when there are any. -/
def printedAttrs : List Attr → List Char
  | [] => []
  | a :: as => '(' :: (a.printed ++ as.flatMap (fun b => ',' :: ' ' :: b.printed) ++ [')'])

/-- A filter with its options. -/
def FilterUse.printed (u : FilterUse) : List Char := ':' :: (u.name.toList ++ printedAttrs u.attrs)

/-- An argument list in parentheses, when there is one. -/
def printedArguments : Option String → List Char
  | none => []
  | some text => '(' :: (text.toList ++ [')'])

/-- Statements in braces. -/
def braced (statements : List Char) : List Char := '\x7b' :: '\n' :: (statements ++ ['\x7d'])

/-- The keyword of a mode. -/
def Mode.keyword : Mode → Keyword
  | .replace => .replace
  | .append => .append
  | .prepend => .prepend

namespace Node

mutual

/-- A node as a statement. -/
def printed : Node → List Char
  | .group ⟨ns, _⟩ => braced (printedAll ns)
  | .block h ns =>
    Keyword.block.text.toList ++ ' ' :: (h.mode.keyword.text.toList ++
      ' ' :: (h.name.toList ++ ' ' :: braced (printedAll ns)))
  | .inherits f _ _ => Keyword.inherits.text.toList ++ ' ' :: printedText f.path
  | .includes f _ b _ =>
    Keyword.includes.text.toList ++ ' ' :: (printedText f.path ++ printedBody b)
  | .includesRaw f _ us _ =>
    Keyword.includes.text.toList ++ us.flatMap FilterUse.printed ++ ' ' :: printedText f.path
  | .mixin h b =>
    (if h.isCall then [Mark.plus.char] else Keyword.mixin.text.toList ++ [' ']) ++
      (h.name.toList ++ (printedArguments h.args ++ printedBody b))
  | .filter u ⟨ns, _⟩ => u.printed ++ ' ' :: braced (printedAll ns)
  | .yield _ => Keyword.yield.text.toList
  | .text v _ => printedText v
  | .tag h ⟨ns, _⟩ =>
    h.name.toList ++ ((if h.textOnly then ['.'] else []) ++ ' ' :: braced (printedAll ns))
  termination_by structural n => n

/-- Nodes as statements, each on a line of its own. -/
def printedAll : List Node → List Char
  | [] => []
  | n :: ns => printed n ++ '\n' :: printedAll ns
  termination_by structural ns => ns

/-- A nested sequence behind a blank, when there is one. -/
def printedBody : Option (Body Node) → List Char
  | none => []
  | some ⟨ns, _⟩ => ' ' :: braced (printedAll ns)
  termination_by structural b => b

end

/-- A document as a text: the statements of a group, or the one statement of another node. -/
def print : Node → String
  | .group ⟨ns, _⟩ => String.ofList (printedAll ns)
  | n => String.ofList (printedAll [n])

end Node

/-- The place without its line. -/
def Position.withoutLine (p : Position) : Position := { p with line := 0 }

/-- The head without its line. -/
def BlockHead.withoutLine (h : BlockHead) : BlockHead :=
  { h with position := h.position.withoutLine }

/-- The filter without its line. -/
def FilterUse.withoutLine (u : FilterUse) : FilterUse :=
  { u with position := u.position.withoutLine }

/-- The head without its line. -/
def MixinHead.withoutLine (h : MixinHead) : MixinHead :=
  { h with position := h.position.withoutLine }

/-- The head without its line. -/
def TagHead.withoutLine (h : TagHead) : TagHead :=
  { h with position := h.position.withoutLine }

namespace Node

mutual

/-- The tree without line numbers. -/
def withoutLines : Node → Node
  | .group ⟨ns, p⟩ => .group ⟨withoutLinesAll ns, p.withoutLine⟩
  | .block h ns => .block h.withoutLine (withoutLinesAll ns)
  | .inherits f d p => .inherits f (withoutLinesDocument d) p.withoutLine
  | .includes f d b p =>
    .includes f (withoutLinesDocument d) (withoutLinesBody b) p.withoutLine
  | .includesRaw f d us p =>
    .includesRaw f (withoutLinesDocument d) (us.map FilterUse.withoutLine) p.withoutLine
  | .mixin h b => .mixin h.withoutLine (withoutLinesBody b)
  | .filter u ⟨ns, p⟩ => .filter u.withoutLine ⟨withoutLinesAll ns, p.withoutLine⟩
  | .yield p => .yield p.withoutLine
  | .text v p => .text v p.withoutLine
  | .tag h ⟨ns, p⟩ => .tag h.withoutLine ⟨withoutLinesAll ns, p.withoutLine⟩
  termination_by structural n => n

/-- The trees without line numbers. -/
def withoutLinesAll : List Node → List Node
  | [] => []
  | n :: ns => withoutLines n :: withoutLinesAll ns
  termination_by structural ns => ns

/-- A loaded document without line numbers. -/
def withoutLinesDocument : Option Node → Option Node
  | none => none
  | some d => some (withoutLines d)
  termination_by structural d => d

/-- A nested sequence without line numbers. -/
def withoutLinesBody : Option (Body Node) → Option (Body Node)
  | none => none
  | some ⟨ns, p⟩ => some ⟨withoutLinesAll ns, p.withoutLine⟩
  termination_by structural b => b

end

end Node

end Templating
