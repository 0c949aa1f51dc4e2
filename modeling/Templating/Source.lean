import Templating.Path
import Templating.Token.Lexer

/-!
# Source texts

The text of a template with its file name, and the correspondence between byte offsets, slices
and lines. Lines end at a line feed.
-/

namespace Templating

/-- A template text and the file it came from. -/
structure Source where
  text : String
  file : Option Path
  deriving DecidableEq, Repr, Inhabited

namespace Source

/-- The characters that begin before byte `n`. -/
def takeBytes : Nat → List Char → List Char
  | _, [] => []
  | 0, _ => []
  | n + 1, c :: cs => c :: takeBytes (n + 1 - c.utf8Size) cs

/-- The characters that begin at byte `n` or behind it. -/
def dropBytes : Nat → List Char → List Char
  | _, [] => []
  | 0, cs => cs
  | n + 1, c :: cs => dropBytes (n + 1 - c.utf8Size) cs

/-- The characters in a range of bytes; none when the range is reversed. -/
def sliceChars (cs : List Char) (s : Span) : List Char :=
  takeBytes (s.stop - s.start) (dropBytes s.start cs)

/-- The text in a range of bytes. -/
def slice (src : Source) (s : Span) : List Char := sliceChars src.text.toList s

/-- The bytes at which lines begin behind the line feeds of a character sequence, when the first
character stands at byte `offset`. -/
def lineStartsFrom (offset : Nat) : List Char → List Nat
  | [] => []
  | c :: cs =>
    let next := offset + c.utf8Size
    if c = '\n' then next :: lineStartsFrom next cs else lineStartsFrom next cs

/-- The bytes at which the lines of the text begin. A line feed at the end begins one more. -/
def lineStarts (src : Source) : List Nat := 0 :: lineStartsFrom 0 src.text.toList

/-- Where a number stands in an ascending list, or else where it would have to be put in. -/
def search (n : Nat) (ns : List Nat) : Except Nat Nat :=
  let i := (ns.takeWhile (· < n)).length
  if ns[i]? = some n then .ok i else .error i

/-- The line of a byte offset: the one that begins there, or else the last that begins before. -/
def lineOf (src : Source) (offset : Nat) : Nat :=
  match search offset src.lineStarts with
  | .ok i => i + 1
  | .error i => i

/-- The lines of a character sequence, each with its line feed. -/
def lines : List Char → List (List Char)
  | [] => []
  | c :: cs =>
    if c = '\n' then [c] :: lines cs
    else
      match lines cs with
      | [] => [[c]]
      | l :: rest => (c :: l) :: rest

/-- A line without the line feed and carriage returns at its end. -/
def trimLine (l : List Char) : List Char :=
  (l.reverse.dropWhile fun c => c = '\n' || c = '\r').reverse

/-- The bytes of the line number `line` of `ls`, counted from 1, when the first begins at byte
`start`. A line that is not there has an empty span at the start of the text. -/
def lineSpanFrom (start : Nat) : Nat → List (List Char) → Span
  | 1, l :: _ => ⟨start, start + Lexer.byteLength (trimLine l)⟩
  | line + 1, l :: rest => lineSpanFrom (start + Lexer.byteLength l) line rest
  | _, _ => ⟨0, 0⟩

/-- The bytes of a line, without its end. -/
def lineSpan (text : String) (line : Nat) : Span := lineSpanFrom 0 line (lines text.toList)

/-- The number of bytes of the text. -/
def size (src : Source) : Nat := src.text.utf8ByteSize

end Source

end Templating
