import Templating.Text.Combining
import Templating.Text.Printable

/-!
# Quoted text

A text in double quotes on one line, from which the text can be told again: quotes and
backslashes are escaped, and what cannot be shown by itself is written as an escape.
-/

namespace Templating.Text

/-- Hexadecimal digits, lower case, without leading zeros. -/
def hexDigits (n : Nat) : List Char := Nat.toDigits 16 n

/-- The escape by code point. -/
def codePointEscape (c : Char) : List Char := ['\\', 'u', '\x7b'] ++ hexDigits c.toNat ++ ['\x7d']

/-- A character as it stands between quotes. -/
def quotedChar (c : Char) : List Char :=
  if c = '\x00' then ['\\', '0']
  else if c = '\t' then ['\\', 't']
  else if c = '\r' then ['\\', 'r']
  else if c = '\n' then ['\\', 'n']
  else if c = '"' || c = '\\' then ['\\', c]
  else if isCombining c || !isPrintable c then codePointEscape c
  else [c]

/-- The text in double quotes. -/
def quoted (s : String) : String :=
  String.ofList ('"' :: s.toList.flatMap quotedChar ++ ['"'])

end Templating.Text
