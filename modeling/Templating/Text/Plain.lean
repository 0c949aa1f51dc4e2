/-!
# Plain text

What is left of a text that is written for a terminal when no terminal reads it: printable
characters and blanks. Sequences that control a terminal are left out, and so are control
characters that stand alone.

A blank inside of a short sequence is shown, and what follows it is shown as well, up to the next
control character. Only there the sequence goes on, unless a character beyond ASCII came between.
-/

namespace Templating.Text

/-- What a terminal takes the next character for. -/
inductive TerminalState where
  /-- A character to be shown. -/
  | text
  /-- The kind of a sequence, behind the escape character. -/
  | escape
  /-- More of a short sequence. -/
  | escapeTail
  /-- More of a control sequence. -/
  | control
  /-- The head of a string for a device. -/
  | device
  /-- A parameter in the head of a string for a device. -/
  | deviceParameter
  /-- The end of the head of a string for a device. -/
  | deviceTail
  /-- More of a string, up to a terminator. -/
  | string
  /-- More of a command, up to an alert. -/
  | command
  deriving DecidableEq, Repr

/-- The byte that ends a string for a terminal. -/
def stringTerminator : UInt8 := 0x9C

namespace TerminalState

/-- The state behind a character. Every sequence ends at the start of another one. -/
def next (s : TerminalState) (c : Char) : TerminalState :=
  if c = '\x1B' then .escape
  else if c = '\x18' || c = '\x1A' then .text
  else
    match s with
    | .text => .text
    | .escape =>
      if ' ' ≤ c && c ≤ '/' then .escapeTail
      else if c = '[' then .control
      else if c = ']' then .command
      else if c = 'P' then .device
      else if c = 'X' || c = '^' || c = '_' then .string
      else if '0' ≤ c && c ≤ '~' then .text
      else .escape
    | .escapeTail => if '0' ≤ c && c ≤ '~' then .text else .escapeTail
    | .control => if '@' ≤ c && c ≤ '~' then .text else .control
    | .device =>
      if ' ' ≤ c && c ≤ '/' then .deviceTail
      else if '0' ≤ c && c ≤ '?' then .deviceParameter
      else if '@' ≤ c && c ≤ '~' then .string
      else .device
    | .deviceParameter =>
      if ' ' ≤ c && c ≤ '/' then .deviceTail
      else if '<' ≤ c && c ≤ '~' then .string
      else .deviceParameter
    | .deviceTail => if '0' ≤ c && c ≤ '~' then .string else .deviceTail
    | .string => if stringTerminator ∈ String.utf8EncodeChar c then .text else .string
    | .command => if c = '\x07' then .text else .command

/-- A blank of ASCII that moves the cursor. -/
def isPlainBlank (c : Char) : Bool := c = '\t' || c = '\n' || c = '\x0C' || c = '\r'

/-- A character that is shown where nothing else is expected. -/
def isShown (c : Char) : Bool := (' ' ≤ c && c ≠ '\x7F') || isPlainBlank c

/-- A character is shown in a state, and what follows is taken as shown. -/
def shows (s : TerminalState) (c : Char) : Bool :=
  match s with
  | .text => isShown c
  | .escape | .escapeTail | .control => isPlainBlank c
  | _ => false

end TerminalState

/-- The plain text from a state on. `showing` tells that what came before was shown. -/
def plainFrom (s : TerminalState) (showing : Bool) : List Char → List Char
  | [] => []
  | c :: cs =>
    if showing && TerminalState.isShown c then
      c :: plainFrom (if c.toNat < 0x80 then s else .text) true cs
    else if s.shows c then c :: plainFrom (s.next c) true cs
    else plainFrom (s.next c) false cs

/-- The plain text. -/
def plain (s : String) : String := String.ofList (plainFrom .text false s.toList)

end Templating.Text
