import Templating.Error
import Templating.Error.Drawing

/-!
# Reports

An error as it is shown to a person: a headline, and a drawing of the part of the source that the
error points at.
-/

namespace Templating

/-- An error as it is shown. -/
inductive Report where
  /-- Words alone, for an error that points nowhere. -/
  | words (text : String)
  /-- A headline over a drawing, if something can be drawn. -/
  | drawn (headline : String) (drawing : Option Drawing)
  deriving DecidableEq, Repr

namespace Report

/-- The first words of a report. -/
def headline : Report → String
  | .words text => text
  | .drawn headline _ => headline

/-- The drawing of a report. -/
def drawing : Report → Option Drawing
  | .words _ => none
  | .drawn _ drawing => drawing

/-- The text of a report: words as they are, and otherwise lines that each end. -/
def toText : Report → String
  | .words text => text
  | .drawn headline drawing =>
    String.join ((headline :: (drawing.map Drawing.lines).getD []).map (· ++ "\n"))

end Report

/-- An error that cannot be shown: the span of a fault ends before it begins. -/
inductive ReportError where
  | reversedSpan
  deriving DecidableEq, Repr

/-- A report on a span of a source. -/
def Report.ofSpan (file source : String) (s : Span) (message label : String) :
    Except ReportError Report :=
  if s.stop < s.start then .error .reversedSpan
  else .ok (.drawn ("Error: " ++ message) (Drawing.ofSpan? file source s label))

/-- A report on a fault of a text. The label also tells what was expected. -/
def SyntaxError.report (e : SyntaxError) (source : Source) : Except ReportError Report :=
  let label :=
    if e.expected.isEmpty then e.message
    else e.message ++ "\nExpected: " ++ ", ".intercalate e.expected
  Report.ofSpan (Position.fileText source.file) source.text e.span e.message label

namespace TemplateError

/-- The first words of a report: the error, for a broken rule without its position. -/
def headline : TemplateError → String
  | .structural v _ => v.code.text ++ ": " ++ v.message
  | e => e.message

/-- Reports on an error, one for each fault of a text. `source` is the text of the file the
error points at; faults of a text are shown in that text itself. Errors without a position are
put into words only. -/
def reports (e : TemplateError) (source : String) : Except ReportError (List Report) :=
  match e with
  | .malformed text errors _ => errors.mapM fun fault => fault.report text
  | e =>
    match e.position? with
    | none => .ok [.words e.message]
    | some p => do
      let r ← Report.ofSpan (Position.fileText p.file) source (Source.lineSpan source p.line)
        e.headline e.headline
      pure [r]

/-- The reports on an error, one under the other. -/
def reportText (e : TemplateError) (source : String) : Except ReportError String := do
  let rs ← e.reports source
  pure ("\n".intercalate (rs.map Report.toText))

end TemplateError

end Templating
