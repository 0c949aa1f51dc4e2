import Templating.Path
import Templating.Table
import Templating.Text.Utf8

/-!
# Files in a folder

The files below a working folder, and how a path leads to one of them: segment by segment, with
`..` going up to the folder that really is above. What lies outside the working folder is not
known; there are folders there, but no files.
-/

namespace Templating

/-- Why a path does not lead to a file. -/
inductive AccessError where
  | missing
  | notFolder
  | isFolder
  | nameTooLong
  | nulInPath
  deriving DecidableEq, Repr

/-- The error in words. -/
def AccessError.message : AccessError → String
  | .missing => "No such file or directory (os error 2)"
  | .notFolder => "Not a directory (os error 20)"
  | .isFolder => "Is a directory (os error 21)"
  | .nameTooLong => "File name too long (os error 36)"
  | .nulInPath => "file name contained an unexpected NUL byte"

/-- The files below a working folder, each by the names that lead to it. A folder is there when
some file is below it. -/
structure Folder where
  files : Table (List String) (List UInt8)
  deriving Repr, Inhabited

/-- Where a path has led to. -/
inductive Place where
  /-- In the working folder or below. -/
  | inside (names : List String)
  /-- Above or beside the working folder. -/
  | outside
  deriving DecidableEq, Repr

namespace Folder

/-- No files. -/
def empty : Folder := ⟨.empty⟩

/-- The number of files. -/
def size (d : Folder) : Nat := d.files.size

/-- There is a folder at these names. -/
def hasFolder (d : Folder) (names : List String) : Bool :=
  names.isEmpty || d.files.keys.any fun file => names.isPrefixOf file && names != file

/-- The names that a path leads to when every folder on the way is there. -/
def namesOf (p : Path) : List String :=
  (Path.evaluate p.components).filterMap fun c =>
    match c with
    | .name s => some s
    | _ => none

/-- Write a file and the folders it needs. -/
def write (d : Folder) (p : Path) (content : List UInt8) : Folder :=
  ⟨d.files.insert (namesOf p) content⟩

/-- The greatest number of bytes of a name. -/
def longestName : Nat := 255

/-- The greatest number of bytes of a path. -/
def longestPath : Nat := 4095

/-- Take a step from a place. Only from a folder can one be taken, even one that leads nowhere. -/
def step (d : Folder) (place : Place) (segment : List Char) : Except AccessError Place :=
  let name := String.ofList segment
  match place with
  | .outside =>
    match Path.Component.ofSegment segment with
    | some (.name _) => .error (if longestName < name.utf8ByteSize then .nameTooLong else .missing)
    | _ => .ok .outside
  | .inside names =>
    if d.files.contains names then .error .notFolder
    else
      match Path.Component.ofSegment segment with
      | some (.name _) =>
        let next := names ++ [name]
        if longestName < name.utf8ByteSize then .error .nameTooLong
        else if d.files.contains next || d.hasFolder next then .ok (.inside next)
        else .error .missing
      | some .up => .ok (if names.isEmpty then .outside else .inside names.dropLast)
      | _ => .ok place

/-- The place that a path leads to. -/
def locate (d : Folder) (p : Path) : Except AccessError Place :=
  if '\x00' ∈ p.text.toList then .error .nulInPath
  else if p.text.isEmpty then .error .missing
  else if longestPath < p.text.utf8ByteSize then .error .nameTooLong
  else
    (Path.segments p.text.toList).foldlM d.step (if p.isAbsolute then .outside else .inside [])

/-- The content of the file that a path leads to. -/
def content (d : Folder) (p : Path) : Except AccessError (List UInt8) :=
  match d.locate p with
  | .error e => .error e
  | .ok .outside => .error .isFolder
  | .ok (.inside names) =>
    match d.files.get? names with
    | some bytes => .ok bytes
    | none => .error .isFolder

/-- Read a file. -/
def read (d : Folder) (p : Path) : Except String (List UInt8) :=
  (d.content p).mapError AccessError.message

end Folder

end Templating
