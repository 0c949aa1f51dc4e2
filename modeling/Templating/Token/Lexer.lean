import Templating.Token

/-!
# Lexing

A text is cut from left to right into blanks, comments and tokens. At each place the longest
token is taken; a word that spells a keyword is that keyword. What starts no token ends lexing.
-/

namespace Templating.Lexer

/-- Number of bytes of a character sequence in UTF-8. -/
def byteLength : List Char → Nat
  | [] => 0
  | c :: cs => c.utf8Size + byteLength cs

/-- Space, tab and the two line characters separate tokens. -/
def isSpace (c : Char) : Bool := c == ' ' || c == '\t' || c == '\n' || c == '\r'

/-- An ASCII digit. -/
def isDigit (c : Char) : Bool := '0' ≤ c && c ≤ '9'

/-- A character that can start a word. -/
def isWordStart (c : Char) : Bool := ('a' ≤ c && c ≤ 'z') || ('A' ≤ c && c ≤ 'Z') || c == '_'

/-- A character inside a word. -/
def isWordChar (c : Char) : Bool := isWordStart c || isDigit c || c == '-'

/-- The token of a complete word. -/
def wordToken (cs : List Char) : Token :=
  match Keyword.ofText? (String.ofList cs) with
  | some k => .keyword k
  | none => .ident (String.ofList cs)

/-- The value of a digit sequence. -/
def digitsValue (cs : List Char) : Nat := cs.foldl (fun n c => 10 * n + (c.toNat - 48)) 0

/-- Inside of a quoted literal behind its opening quote: the complete items before the closing
quote, and whether there is one. An item is a plain character, or a backslash with any character
but a line feed. -/
def quotedItems (quote : Char) : List Char → List Char × Bool
  | [] => ([], false)
  | ['\\'] => ([], false)
  | '\\' :: c :: rest =>
    if c = '\n' then ([], false)
    else
      let (items, closed) := quotedItems quote rest
      ('\\' :: c :: items, closed)
  | c :: rest =>
    if c = quote then ([], true)
    else
      let (items, closed) := quotedItems quote rest
      (c :: items, closed)

/-- The character that a backslash and `c` stand for. -/
def escaped (c : Char) : Char :=
  if c = 'n' then '\n' else if c = 't' then '\t' else if c = 'r' then '\r' else c

/-- Resolve the backslash escapes of a quoted literal. -/
def unescape : List Char → List Char
  | '\\' :: c :: rest => escaped c :: unescape rest
  | c :: rest => c :: unescape rest
  | [] => []

/-- What stands at a place of the text, and over how many characters behind the first. -/
inductive Scan where
  /-- Blanks or a comment. -/
  | gap (more : Nat)
  | token (t : Token) (more : Nat)
  /-- No token starts here. -/
  | bad (more : Nat)
  deriving DecidableEq, Repr

/-- Digits, with a fraction when a dot and a digit follow. `first` is the first digit. -/
def scanNumber (first : Char) (rest : List Char) : Scan :=
  let whole := rest.takeWhile isDigit
  let fraction : List Char :=
    match rest.dropWhile isDigit with
    | '.' :: tail => tail.takeWhile isDigit
    | _ => []
  let value := Binary64.ofDecimal false (digitsValue (first :: whole ++ fraction))
    (-(fraction.length : Int))
  .token (.number value) (whole.length + if fraction = [] then 0 else fraction.length + 1)

/-- What starts with the character `c`, before `rest`. -/
def scan (c : Char) (rest : List Char) : Scan :=
  if isSpace c then .gap (rest.takeWhile isSpace).length
  else if isWordStart c then
    let more := rest.takeWhile isWordChar
    .token (wordToken (c :: more)) more.length
  else if isDigit c then scanNumber c rest
  else if c = '"' || c = '\'' then
    match quotedItems c rest with
    | (items, true) => .token (.string (String.ofList (unescape items))) (items.length + 1)
    | (items, false) => .bad items.length
  else
    match Mark.ofChar? c, rest with
    | some m, _ => .token (.mark m) 0
    | none, '/' :: tail =>
      if c = '/' then .gap (1 + (tail.takeWhile (· ≠ '\n')).length) else .bad 0
    | none, _ => .bad 0

/-- The characters at which lexing stopped, with their place. -/
structure Refusal where
  text : String
  span : Span
  deriving DecidableEq, Repr

/-- The tokens of the characters `cs`, the first of which stands at byte `offset`. -/
def lexemesFrom (offset : Nat) : List Char → Except Refusal (List Lexeme)
  | [] => .ok []
  | c :: rest =>
    match scan c rest with
    | .gap more =>
      lexemesFrom (offset + byteLength (c :: rest.take more)) (rest.drop more)
    | .token t more =>
      let stop := offset + byteLength (c :: rest.take more)
      match lexemesFrom stop (rest.drop more) with
      | .ok ls => .ok (⟨t, offset, stop⟩ :: ls)
      | .error e => .error e
    | .bad more =>
      let slice := c :: rest.take more
      .error ⟨String.ofList slice, offset, offset + byteLength slice⟩
  termination_by cs => cs.length
  decreasing_by all_goals simp only [List.length_drop, List.length_cons]; omega

/-- The tokens of a text. -/
def lexemes (text : String) : Except Refusal (List Lexeme) := lexemesFrom 0 text.toList

end Templating.Lexer
