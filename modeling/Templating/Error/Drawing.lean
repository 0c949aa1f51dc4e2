import Templating.Text.Blank
import Templating.Text.Width
import Templating.Token

/-!
# Drawings

A span of a source, drawn with a label: the line it lies on with the span underlined, or the lines
it begins and ends on. A drawing counts characters: the numbers of a span are taken as places of
characters, and lines end at every line terminator of Unicode.
-/

namespace Templating

/-- A line of a drawing. -/
structure DrawnLine where
  /-- The place of its first character. -/
  start : Nat
  chars : List Char
  deriving DecidableEq, Repr

/-- A character that ends lines. -/
def isLineEnd (c : Char) : Bool :=
  c = '\r' || c = '\n' || c = '\x0B' || c = '\x0C' || c = '\u0085' || c = '\u2028' ||
    c = '\u2029'

/-- Lines of characters, with their ends; a carriage return and a line feed end one line. -/
def lineRuns : List Char → List (List Char)
  | [] => []
  | '\r' :: '\n' :: cs => ['\r', '\n'] :: lineRuns cs
  | c :: cs =>
    if isLineEnd c then [c] :: lineRuns cs
    else
      match lineRuns cs with
      | [] => [[c]]
      | l :: rest => (c :: l) :: rest

/-- Lines with their places, the first one starting at `start`. -/
def drawnLinesFrom (start : Nat) : List (List Char) → List DrawnLine
  | [] => []
  | l :: rest => ⟨start, l⟩ :: drawnLinesFrom (start + l.length) rest

/-- The lines of a source. -/
def drawnLines (source : String) : List DrawnLine :=
  drawnLinesFrom 0 (lineRuns source.toList)

/-- The part of a source that an error points at, drawn. -/
structure Drawing where
  file : String
  /-- The line, counted from 1. -/
  line : Nat
  /-- The column, counted from 1. -/
  column : Nat
  /-- The number of digits that numbers of lines have room for. -/
  numberWidth : Nat
  /-- Lines of the source, with what marks the span. -/
  body : List String
  /-- The arrow to the label, and the label. -/
  label : Option (String × String)
  deriving DecidableEq, Repr

namespace Drawing

/-- Repeat a character. -/
def times (n : Nat) (c : Char) : List Char := List.replicate n c

/-- How a character of the source is shown at a column: a tab reaches to the next multiple of
four, other blanks are one space wide. -/
def shown (column : Nat) (c : Char) : List Char :=
  if c = '\t' then times ((column / 4 + 1) * 4 - column) ' '
  else if Text.isBlank c then [' ']
  else [c]

/-- The number of columns that a character takes up at a place of a line. -/
def widthOf (place : Nat) (c : Char) : Nat :=
  if c = '\t' || Text.isBlank c then (shown place c).length else Text.width c

/-- The numbers of columns at the first places of a line. There is one at each place behind the
end of the line. -/
def widths (line : List Char) (places : Nat) : List Nat :=
  (line.mapIdx widthOf ++ List.replicate places 1).take places

/-- A character that is drawn on over further columns; none at all for no column. -/
def stretch (columns : Nat) (head tail : Char) : List Char :=
  match columns with
  | 0 => []
  | more + 1 => head :: times more tail

/-- A line of marks: `mark` gives the first character at a place and the one it is continued
with. -/
def marks (line : List Char) (places : Nat) (mark : Nat → Char × Char) : List Char :=
  ((widths line places).mapIdx fun k columns =>
    stretch columns (mark k).1 (mark k).2).flatten

/-- The line under a span, with a branch in the middle of the span. -/
def underline (line : List Char) (first length : Nat) : List Char :=
  let middle := first + length / 2
  if length = 0 then marks line (first + 1) fun k => if k = first then ('│', ' ') else (' ', ' ')
  else marks line (first + length) fun k =>
    if k < first then (' ', ' ') else if k = middle then ('┬', '─') else ('─', '─')

/-- The arrow from the branch to the label. -/
def arrow (line : List Char) (first length : Nat) : List Char :=
  let middle := first + length / 2
  marks line (first + length + 2) fun k =>
    if k < middle then (' ', ' ') else if k = middle then ('╰', '─') else ('─', '─')

/-- The arrow from the last line of a span over several lines to the label. -/
def longArrow (line : List Char) (places : Nat) : List Char :=
  ['╰', '─', '─', '─'] ++ marks line (places + 2) fun _ => ('─', '─')

/-- What stands left of a line that has no number. -/
def margin (numberWidth : Nat) : String := String.ofList (times (numberWidth + 2) ' ')

/-- A line under a line of the source. -/
def unnumbered (numberWidth : Nat) (text : List Char) : String :=
  margin numberWidth ++ "│ " ++ String.ofList text

/-- A line with its number. -/
def numbered (numberWidth number : Nat) (text : List Char) : String :=
  let digits := toString number
  " " ++ String.ofList (times (numberWidth - digits.length) ' ') ++ digits ++ " │ " ++
    String.ofList text

/-- The bar between other lines. -/
def bar (d : Drawing) : String := margin d.numberWidth ++ "│"

/-- The line that ends the drawing. -/
def bottom (d : Drawing) : String := String.ofList (times (d.numberWidth + 2) '─' ++ ['╯'])

/-- The file with the line and the column. -/
def location (d : Drawing) : String :=
  d.file ++ ":" ++ toString d.line ++ ":" ++ toString d.column

/-- The lines of the drawing, the one with the location first. -/
def lines (d : Drawing) : List String :=
  (margin d.numberWidth ++ "╭─[" ++ d.location ++ "]") :: d.bar :: d.body ++
    d.label.toList.map (fun (arrow, label) => arrow ++ " " ++ label) ++ [d.bottom]

end Drawing

namespace DrawnLine

/-- The characters of a line without the blanks at its end. -/
def text (l : DrawnLine) : List Char := (l.chars.reverse.dropWhile Text.isBlank).reverse

/-- The characters as they are shown. -/
def source (l : DrawnLine) : List Char := (l.text.mapIdx Drawing.shown).flatten

/-- The place behind the last character of a line. -/
def stop (l : DrawnLine) : Nat := l.start + l.chars.length

end DrawnLine

namespace Drawing

/-- Draw a span on one line. What reaches over the end of the line is not underlined, and its
label is left out. -/
def onLine (file : String) (number : Nat) (line : DrawnLine) (s : Span) (label : String) :
    Drawing :=
  let w := (toString number).length
  let first := s.start - line.start
  let length := s.stop - s.start
  let inside : Bool := s.stop ≤ line.stop
  { file, line := number, column := first + 1, numberWidth := w
    body :=
      if inside then
        [numbered w number line.source, unnumbered w (underline line.text first length)]
      else [unnumbered w []]
    label :=
      if inside then some (unnumbered w (arrow line.text first length), label) else none }

/-- Draw a span over several lines. Only the first line and the last one are shown, and the last
one only if the span ends on it. -/
def overLines (file : String) (number : Nat) (line : DrawnLine) (lastNumber : Nat)
    (last : DrawnLine) (s : Span) (label : String) : Drawing :=
  let w := (toString lastNumber).length
  let ended : Bool := s.stop ≤ last.stop
  let gap : Bool := number + 1 < lastNumber || !ended
  { file, line := number, column := s.start - line.start + 1, numberWidth := w
    body :=
      [numbered w number (['╭', '─', '▶', ' '] ++ line.source)] ++
      (if gap then [margin w ++ "┆ ┆"] else []) ++
      (if ended then
        [numbered w lastNumber (['├', '─', '▶', ' '] ++ last.source), unnumbered w ['│']]
      else [])
    label :=
      if ended then some (unnumbered w (longArrow last.text last.chars.length), label) else none }

/-- The line of a place, with its number. The place behind the last character belongs to the last
line. -/
def lineAt? (lines : List DrawnLine) (place : Nat) : Option (Nat × DrawnLine) :=
  let before := lines.filter fun l => l.start ≤ place
  before.getLast?.map fun l => (before.length, l)

/-- Draw a span of a source with a label. Nothing is drawn of an empty source or of a span that
is not inside the source, where one place behind the end still counts as inside. -/
def ofSpan? (file source : String) (s : Span) (label : String) : Option Drawing :=
  let size := source.length
  if size = 0 ∨ size < s.start ∨ (s.start < s.stop ∧ size < s.stop - 1) then none
  else
    let lines := drawnLines source
    match lineAt? lines s.start, lineAt? lines (max s.start (s.stop - 1)) with
    | some (number, line), some (lastNumber, last) =>
      some (if number = lastNumber then onLine file number line s label
        else overLines file number line lastNumber last s label)
    | _, _ => none

end Drawing

end Templating
