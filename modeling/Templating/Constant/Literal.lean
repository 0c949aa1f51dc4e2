import Templating.Constant
import Templating.Grammar.Parser
import Templating.Text.Blank
import Templating.Token.Lexer

/-!
# Literals

The default reading of an option's expression: literals of strings, numbers, truth values and
null, and arrays of them. Everything else is not constant.
-/

namespace Templating.Literal

open Grammar Grammar.Parser

/-- The value of a token that is a literal by itself. -/
def scalar? : Token → Option Constant
  | .string s => some (.string s)
  | .number x => some (.number x)
  | .ident "true" => some (.bool true)
  | .ident "false" => some (.bool false)
  | .ident "null" => some .null
  | .ident "undefined" => some .null
  | _ => none

/-- A literal number behind a minus. -/
def negative : Parser Constant := do
  mark .minus
  select fun
    | .number x => some (.number x.neg)
    | _ => none

/-- A literal. `depth` bounds the nesting of arrays. -/
def literal : Nat → Parser Constant
  | 0 => stuck
  | depth + 1 =>
    firstOf
      [select scalar?,
        negative,
        do
          let items ←
            between .bracketOpen .bracketClose (separated (literal depth) (mark .comma))
          pure (.array items)]

/-- A literal up to the end of the text; every level of arrays takes a token. -/
def whole : Parser Constant := fun c kept =>
  (do
    let value ← literal (c.rest.length + 1)
    endOfText
    pure value : Parser Constant) c kept

/-- The value of tokens that make a literal. -/
def ofLexemes? (ls : List Lexeme) (length : Nat) : Option Constant :=
  (whole (Cursor.start ls length) none).result.map Prod.fst

/-- The value of an expression. An expression that is no literal is given back without the
blanks around it. -/
def evaluate (expr : String) : Except String Constant :=
  match Lexer.lexemes expr with
  | .error _ => .error (Text.trim expr)
  | .ok ls =>
    match ofLexemes? ls expr.utf8ByteSize with
    | some value => .ok value
    | none => .error (Text.trim expr)

end Templating.Literal
