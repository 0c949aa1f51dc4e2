import Templating.Error
import Templating.Grammar.Template

/-!
# Reading documents

The default way from a text to a document: lexing, then the template grammar.
-/

namespace Templating

/-- The tokens of a text. -/
def Source.tokens (src : Source) : Except TemplateError (List Lexeme) :=
  match src.lexemes with
  | .ok ls => .ok ls
  | .error e => .error (.malformed src [e] [])

/-- The document that tokens make. -/
def Source.documentOf (src : Source) (ls : List Lexeme) : Except TemplateError Node :=
  match Grammar.parse ls src with
  | .ok n => .ok n
  | .error f => .error (.malformed src [.ofFailure f] [])

/-- The document of a text. -/
def Source.document (src : Source) : Except TemplateError Node :=
  match src.tokens with
  | .ok ls => src.documentOf ls
  | .error e => .error e

end Templating
