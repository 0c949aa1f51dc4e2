import Templating.Binary64.Decimal

/-!
# Tokens

The words of the template language, and where they stand in a text. Places are counted in bytes
of the UTF-8 form of the text.
-/

namespace Templating

/-- Bytes from `start` up to, but not including, `stop`. -/
structure Span where
  start : Nat
  stop : Nat
  deriving DecidableEq, Repr, Inhabited

/-- Words with a meaning of their own. -/
inductive Keyword where
  | inherits
  | includes
  | block
  | append
  | prepend
  | replace
  | mixin
  | yield
  deriving DecidableEq, Repr

namespace Keyword

/-- Every keyword. -/
def all : List Keyword :=
  [.inherits, .includes, .block, .append, .prepend, .replace, .mixin, .yield]

/-- The word as it is written. -/
def text : Keyword → String
  | .inherits => "extends"
  | .includes => "include"
  | .block => "block"
  | .append => "append"
  | .prepend => "prepend"
  | .replace => "replace"
  | .mixin => "mixin"
  | .yield => "yield"

/-- The keyword written as `s`. -/
def ofText? (s : String) : Option Keyword := all.find? fun k => k.text == s

end Keyword

/-- Tokens of one fixed character. -/
inductive Mark where
  | braceOpen
  | braceClose
  | bracketOpen
  | bracketClose
  | parenOpen
  | parenClose
  | comma
  | colon
  | dot
  | equals
  | plus
  | minus
  deriving DecidableEq, Repr

namespace Mark

/-- Every mark. -/
def all : List Mark :=
  [.braceOpen, .braceClose, .bracketOpen, .bracketClose, .parenOpen, .parenClose, .comma, .colon,
    .dot, .equals, .plus, .minus]

/-- The character of a mark. -/
def char : Mark → Char
  | .braceOpen => '\x7b'
  | .braceClose => '\x7d'
  | .bracketOpen => '['
  | .bracketClose => ']'
  | .parenOpen => '('
  | .parenClose => ')'
  | .comma => ','
  | .colon => ':'
  | .dot => '.'
  | .equals => '='
  | .plus => '+'
  | .minus => '-'

/-- The mark written as `c`. -/
def ofChar? (c : Char) : Option Mark := all.find? fun m => m.char == c

/-- Brackets of any of the three shapes. -/
def isBracket : Mark → Bool
  | .braceOpen | .braceClose | .bracketOpen | .bracketClose | .parenOpen | .parenClose => true
  | _ => false

end Mark

/-- A token of the template language. -/
inductive Token where
  | keyword (k : Keyword)
  | mark (m : Mark)
  | ident (name : String)
  | string (value : String)
  | number (value : Binary64)
  deriving DecidableEq, Repr

namespace Token

/-- How a token is named in messages. -/
def describe : Token → String
  | .keyword k => "keyword '" ++ k.text ++ "'"
  | .mark .dot => "Dot"
  | .mark .equals => "Equals"
  | .mark .plus => "Plus"
  | .mark .minus => "Minus"
  | .mark m => "'" ++ String.ofList [m.char] ++ "'"
  | .ident s => "identifier '" ++ s ++ "'"
  | .string s => "string \"" ++ s ++ "\""
  | .number x => "number " ++ x.toText

/-- Brackets of any of the three shapes. -/
def isBracket : Token → Bool
  | .mark m => m.isBracket
  | _ => false

end Token

/-- A token with its place in the text. -/
structure Lexeme where
  token : Token
  span : Span
  deriving DecidableEq, Repr

end Templating
