import Templating.Grammar.Failure

/-!
# Parsers

Ordered choice over a token sequence: an alternative is tried from the same place as the one
before it, and the first that succeeds is taken. Every parser hands on the furthest failure met
so far, also when it succeeds.
-/

namespace Templating.Grammar

/-- A place in a token sequence. -/
structure Cursor where
  /-- The tokens ahead. -/
  rest : List Lexeme
  /-- The number of tokens behind. -/
  index : Nat
  /-- Where the token behind ends. At the start this is the length of the text. -/
  stop : Nat
  /-- The length of the text. -/
  length : Nat
  deriving DecidableEq, Repr

namespace Cursor

/-- The place before the first token. -/
def start (ls : List Lexeme) (length : Nat) : Cursor := ⟨ls, 0, length, length⟩

/-- The token ahead. -/
def token? (c : Cursor) : Option Token := c.rest.head?.map Lexeme.token

/-- The span of the token ahead. At the end it runs from the end of the text back to the end of
the last token. -/
def span (c : Cursor) : Span :=
  match c.rest with
  | l :: _ => l.span
  | [] => ⟨c.length, c.stop⟩

/-- From the token ahead of `c` to the token behind `d`. -/
def spanTo (c d : Cursor) : Span := ⟨c.span.start, d.stop⟩

/-- The place behind the token ahead. -/
def next (c : Cursor) (l : Lexeme) : Cursor :=
  { c with rest := c.rest.tail, index := c.index + 1, stop := l.span.stop }

end Cursor

/-- What a parser yields, with the furthest failure. -/
structure Reply (α : Type) where
  result : Option (α × Cursor)
  furthest : Option Failure

/-- Reads a value from a place on, given the furthest failure so far. -/
def Parser (α : Type) : Type := Cursor → Option Failure → Reply α

namespace Parser

variable {α β : Type}

/-- Read nothing. -/
protected def pure (a : α) : Parser α := fun c kept => ⟨some (a, c), kept⟩

/-- One parser after another. -/
protected def bind (p : Parser α) (f : α → Parser β) : Parser β := fun c kept =>
  match p c kept with
  | ⟨some (a, d), kept'⟩ => f a d kept'
  | ⟨none, kept'⟩ => ⟨none, kept'⟩

instance : Monad Parser where
  pure := Parser.pure
  bind := Parser.bind

/-- Fail without leaving a failure behind. -/
def stuck : Parser α := fun _ kept => ⟨none, kept⟩

/-- Fail at the token ahead. -/
def refuse (expected : List Expectation) : Parser α := fun c kept =>
  ⟨none, keepFurthest kept ⟨c.index, c.span, .unexpected c.token? expected⟩⟩

/-- The place that the parser stands at. -/
def here : Parser Cursor := fun c kept => ⟨some (c, c), kept⟩

/-- One given token. -/
def token (t : Token) : Parser Unit := fun c kept =>
  match c.rest with
  | l :: _ => if l.token = t then ⟨some ((), c.next l), kept⟩ else refuse [.token t] c kept
  | [] => refuse [.token t] c kept

/-- One keyword. -/
def keyword (k : Keyword) : Parser Unit := token (.keyword k)

/-- One mark. -/
def mark (m : Mark) : Parser Unit := token (.mark m)

/-- One token from which `f` takes a value. -/
def select (f : Token → Option α) : Parser α := fun c kept =>
  match c.rest with
  | l :: _ =>
    match f l.token with
    | some a => ⟨some (a, c.next l), kept⟩
    | none => refuse [] c kept
  | [] => refuse [] c kept

/-- A name. -/
def ident : Parser String := select fun
  | .ident s => some s
  | _ => none

/-- A quoted text. -/
def string : Parser String := select fun
  | .string s => some s
  | _ => none

/-- One token that passes a test. A token that does not pass is taken all the same: the failure
stands behind it, points at it, and tells nothing of what was found. -/
def passing (test : Token → Bool) : Parser Unit := fun c kept =>
  match c.rest with
  | l :: _ =>
    if test l.token then ⟨some ((), c.next l), kept⟩
    else ⟨none, keepFurthest kept ⟨c.index + 1, l.span, .unexpected none []⟩⟩
  | [] => refuse [] c kept

/-- The end of the text. -/
def endOfText : Parser Unit := fun c kept =>
  match c.rest with
  | [] => ⟨some ((), c), kept⟩
  | _ :: _ => refuse [.endOfText] c kept

/-- The first alternative that succeeds. -/
def firstOf : List (Parser α) → Parser α
  | [] => stuck
  | p :: ps => fun c kept =>
    match p c kept with
    | ⟨some r, kept'⟩ => ⟨some r, kept'⟩
    | ⟨none, kept'⟩ => firstOf ps c kept'

/-- A value or nothing. -/
def optional (p : Parser α) : Parser (Option α) := fun c kept =>
  match p c kept with
  | ⟨some (a, d), kept'⟩ => ⟨some (some a, d), kept'⟩
  | ⟨none, kept'⟩ => ⟨some (none, c), kept'⟩

/-- As many values as there are, but no more than `limit`. -/
def upTo (p : Parser α) : Nat → Parser (List α)
  | 0 => Parser.pure []
  | limit + 1 => fun c kept =>
    match p c kept with
    | ⟨some (a, d), kept'⟩ => ((upTo p limit).bind fun as => Parser.pure (a :: as)) d kept'
    | ⟨none, kept'⟩ => ⟨some ([], c), kept'⟩

/-- As many values as there are. Every value takes a token, so the tokens ahead bound them. -/
def many (p : Parser α) : Parser (List α) := fun c kept => upTo p (c.rest.length + 1) c kept

/-- Values with a separator between them and, if there are values, perhaps behind them. -/
def separated (p : Parser α) (separator : Parser Unit) : Parser (List α) := do
  match ← optional p with
  | none => pure []
  | some a =>
    let as ← many (do separator; p)
    let _ ← optional separator
    pure (a :: as)

/-- A value between two marks. -/
def between (opening closing : Mark) (p : Parser α) : Parser α := do
  mark opening
  let a ← p
  mark closing
  pure a

/-- A value with the span of the tokens it was read from. -/
def spanned (p : Parser α) : Parser (α × Span) := do
  let c ← here
  let a ← p
  let d ← here
  pure (a, c.spanTo d)

end Parser

end Templating.Grammar
