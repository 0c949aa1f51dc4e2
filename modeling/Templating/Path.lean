/-!
# File paths

Slash-separated paths, kept as they were written. A path is read as a list of components:
repeated slashes, a trailing slash and inner `.` segments carry no meaning, a leading `.` and
every `..` do. Normalisation evaluates `.` and `..` lexically, without a file system.
-/

namespace Templating

/-- A file path, with the text it was written in. -/
structure Path where
  text : String
  deriving DecidableEq, Repr, Inhabited

namespace Path

/-- One step of a path. -/
inductive Component where
  /-- The leading slash of an absolute path. -/
  | root
  /-- A leading `.` of a relative path. -/
  | current
  /-- A `..` step. -/
  | up
  /-- A named step. -/
  | name (text : String)
  deriving DecidableEq, Repr

/-- The text between the slashes, in order; never an empty list. -/
def segments : List Char → List (List Char)
  | [] => [[]]
  | c :: cs =>
    if c = '/' then [] :: segments cs
    else
      match segments cs with
      | [] => [[c]]
      | s :: rest => (c :: s) :: rest

/-- The step a segment stands for; empty and `.` segments stand for none. -/
def Component.ofSegment (s : List Char) : Option Component :=
  if s = [] ∨ s = ['.'] then none
  else if s = ['.', '.'] then some .up
  else some (.name (String.ofList s))

/-- Components of a character sequence. -/
def componentsOf (cs : List Char) : List Component :=
  match cs with
  | '/' :: rest => .root :: (segments rest).filterMap Component.ofSegment
  | _ =>
    match segments cs with
    | ['.'] :: rest => .current :: rest.filterMap Component.ofSegment
    | all => all.filterMap Component.ofSegment

/-- The steps of a path. -/
def components (p : Path) : List Component := componentsOf p.text.toList

/-- Two spellings name the same path when their components agree. -/
def same (p q : Path) : Bool := decide (p.components = q.components)

/-- A path is absolute when it starts with a slash. -/
def isAbsolute (p : Path) : Bool :=
  match p.text.toList with
  | '/' :: _ => true
  | _ => false

/-- Append `q` below `p`, with a slash between where one is missing. An absolute `q` replaces
`p`. -/
def join (p q : Path) : Path :=
  if q.isAbsolute then q
  else if p.text.toList.getLast? = none ∨ p.text.toList.getLast? = some '/' then ⟨p.text ++ q.text⟩
  else ⟨p.text ++ "/" ++ q.text⟩

/-- The last component, when it is a name. -/
def fileName? (p : Path) : Option String :=
  match p.components.getLast? with
  | some (.name s) => some s
  | _ => none

/-- The characters behind the last dot of a file name. A name without a dot, or whose only dot
is its first character, has none. -/
def extensionOf (name : List Char) : Option (List Char) :=
  let tail := name.reverse.takeWhile (· ≠ '.')
  if name.length ≤ tail.length + 1 then none else some tail.reverse

/-- The extension of the last component. -/
def extension? (p : Path) : Option String :=
  (p.fileName?.bind fun s => extensionOf s.toList).map String.ofList

/-- Drop trailing segments that stand for no step. -/
def trimSegments (ss : List (List Char)) : List (List Char) :=
  (ss.reverse.dropWhile fun s => (Component.ofSegment s).isNone).reverse

/-- Segments with slashes between them. -/
def joinSegments (ss : List (List Char)) : List Char := (ss.intersperse ['/']).flatten

/-- The path without its last component. The root and the empty path have no parent. -/
def parent? (p : Path) : Option Path :=
  let cs := p.text.toList
  let (lead, body) : List Char × List Char :=
    match cs with
    | '/' :: rest => (['/'], rest)
    | ['.'] => (['.'], [])
    | '.' :: '/' :: rest => (['.'], '/' :: rest)
    | _ => ([], cs)
  match trimSegments (segments body) with
  | [] => if lead = ['.'] then some ⟨""⟩ else none
  | ss => some ⟨String.ofList (lead ++ joinSegments (trimSegments ss.dropLast))⟩

/-- One step of lexical evaluation: `..` takes back a name, stops at the root, and is kept
otherwise. The evaluated steps are held last first. -/
def pushComponent (stack : List Component) : Component → List Component
  | .current => stack
  | .up =>
    match stack with
    | .name _ :: rest => rest
    | .root :: _ => stack
    | _ => .up :: stack
  | c => c :: stack

/-- Lexical evaluation of a list of components. -/
def evaluate (cs : List Component) : List Component := (cs.foldl pushComponent []).reverse

/-- The text of a component other than the root. -/
def Component.text : Component → String
  | .root => ""
  | .current => "."
  | .up => ".."
  | .name s => s

/-- The path made of the given components. -/
def ofComponents : List Component → Path
  | .root :: rest => ⟨"/" ++ "/".intercalate (rest.map Component.text)⟩
  | cs => ⟨"/".intercalate (cs.map Component.text)⟩

/-- Collapse `.` and `..` without consulting a file system. -/
def normalize (p : Path) : Path := ofComponents (evaluate p.components)

end Path

end Templating
