import Templating.Toml

/-!
# Reading TOML

A text is read line by line: comments, table headers, and keys with values. Reading either gives
the whole document or nothing.
-/

namespace Templating.Toml.Reader

/-- A value read from the front of a text, and the text behind it. -/
abbrev Read (α : Type) := Option (α × List Char)

/-- Space and tab. -/
def isSpace (c : Char) : Bool := c = ' ' || c = '\t'

/-- Drop spaces. -/
def skipSpace (cs : List Char) : List Char := cs.dropWhile isSpace

/-- A character that may stand in comments and strings: no control character but the tab. -/
def isPlain (c : Char) : Bool := c = '\t' || (' ' ≤ c && c ≠ '\x7f')

/-- The text behind the end of a line. -/
def lineEnd? : List Char → Option (List Char)
  | '\n' :: rest => some rest
  | '\r' :: '\n' :: rest => some rest
  | _ => none

/-- The text behind a comment, if the text starts with one. -/
def skipComment (cs : List Char) : List Char :=
  match cs with
  | '#' :: rest => rest.dropWhile isPlain
  | _ => cs

/-- The text behind the rest of a line that holds nothing more. -/
def lineRest? (cs : List Char) : Option (List Char) :=
  match skipComment (skipSpace cs) with
  | [] => some []
  | rest => lineEnd? rest

/-- Drop spaces, line ends and comments. `limit` bounds the steps. -/
def skipTrivia : Nat → List Char → List Char
  | 0, cs => cs
  | limit + 1, cs =>
    match skipSpace cs with
    | '\n' :: rest => skipTrivia limit rest
    | '\r' :: '\n' :: rest => skipTrivia limit rest
    | '#' :: rest => skipTrivia limit (rest.dropWhile isPlain)
    | rest => rest

/-- Drop spaces, line ends and comments. -/
def skipAll (cs : List Char) : List Char := skipTrivia (cs.length + 1) cs

/-- A decimal digit. -/
def isDigit (c : Char) : Bool := '0' ≤ c && c ≤ '9'

/-- The value of a hexadecimal digit. -/
def hexValue? (c : Char) : Option Nat :=
  if isDigit c then some (c.toNat - 48)
  else if 'a' ≤ c && c ≤ 'f' then some (c.toNat - 87)
  else if 'A' ≤ c && c ≤ 'F' then some (c.toNat - 55)
  else none

/-- The value of digits in a base. -/
def digitsValue? (base : Nat) (cs : List Char) : Option Nat :=
  cs.foldlM (fun n c => do
    let d ← hexValue? c
    if d < base then some (base * n + d) else none) 0

/-- The character that a code point of a given number of hexadecimal digits stands for. -/
def codePoint? (count : Nat) (cs : List Char) : Option Char := do
  let ds := cs.take count
  if ds.length < count then none
  else
    let n ← digitsValue? 16 ds
    if n < 0xD800 || (0xDFFF < n && n < 0x110000) then some (Char.ofNat n) else none

/-- The character behind a backslash, with the number of characters that name it. -/
def escape? : List Char → Option (Char × Nat)
  | 'b' :: _ => some ('\x08', 1)
  | 't' :: _ => some ('\t', 1)
  | 'n' :: _ => some ('\n', 1)
  | 'f' :: _ => some ('\x0C', 1)
  | 'r' :: _ => some ('\r', 1)
  | '"' :: _ => some ('"', 1)
  | '\\' :: _ => some ('\\', 1)
  | 'u' :: rest => (codePoint? 4 rest).map (·, 5)
  | 'U' :: rest => (codePoint? 8 rest).map (·, 9)
  | _ => none

/-- A string in double quotes, behind the opening quote. -/
def basicString : List Char → Read (List Char)
  | [] => none
  | c :: rest =>
    if c = '"' then some ([], rest)
    else if c = '\\' then
      match escape? rest with
      | none => none
      | some (e, count) =>
        (basicString (rest.drop count)).map fun (s, rest) => (e :: s, rest)
    else if isPlain c then (basicString rest).map fun (s, rest) => (c :: s, rest)
    else none
  termination_by cs => cs.length
  decreasing_by all_goals simp only [List.length_drop, List.length_cons]; omega

/-- A string in single quotes, behind the opening quote. -/
def literalString (cs : List Char) : Read (List Char) :=
  match cs.dropWhile fun c => isPlain c && c ≠ '\'' with
  | '\'' :: rest => some (cs.takeWhile fun c => isPlain c && c ≠ '\'', rest)
  | _ => none

/-- What a run of quotes in a string over several lines means: quotes of the string, and whether
the string ends. More than five end the string too early. -/
def quoteRun? (count : Nat) : Option (Nat × Bool) :=
  if count < 3 then some (count, false)
  else if count ≤ 5 then some (count - 3, true)
  else none

/-- Drop spaces and line ends. -/
def skipBlankLines : List Char → List Char
  | [] => []
  | '\r' :: '\n' :: cs => skipBlankLines cs
  | c :: cs => if isSpace c || c = '\n' then skipBlankLines cs else c :: cs

/-- The text behind a line continuation: the rest of the line, and all blank lines and
indentation behind it. -/
def continuation? (cs : List Char) : Option (List Char) :=
  (lineEnd? (skipSpace cs)).map skipBlankLines

/-- A string over several lines, behind the opening quotes. `escapes` tells whether a backslash
has a meaning. `limit` bounds the steps. -/
def longString (quote : Char) (escapes : Bool) : Nat → List Char → Read (List Char)
  | 0, _ => none
  | _ + 1, [] => none
  | limit + 1, c :: rest =>
    if c = quote then
      let more := rest.takeWhile (· = quote)
      match quoteRun? (more.length + 1) with
      | none => none
      | some (count, true) => some (List.replicate count quote, rest.drop more.length)
      | some (count, false) =>
        (longString quote escapes limit (rest.drop more.length)).map fun (s, rest) =>
          (List.replicate count quote ++ s, rest)
    else if c = '\\' && escapes then
      match continuation? rest with
      | some rest => longString quote escapes limit rest
      | none =>
        match escape? rest with
        | none => none
        | some (e, count) =>
          (longString quote escapes limit (rest.drop count)).map fun (s, rest) => (e :: s, rest)
    else
      match lineEnd? (c :: rest) with
      | some rest => (longString quote escapes limit rest).map fun (s, rest) => ('\n' :: s, rest)
      | none =>
        if isPlain c then
          (longString quote escapes limit rest).map fun (s, rest) => (c :: s, rest)
        else none

/-- The text behind a first line end. -/
def skipFirstLineEnd (cs : List Char) : List Char := (lineEnd? cs).getD cs

/-- A string of any of the four forms. -/
def string? : List Char → Read String
  | '"' :: '"' :: '"' :: rest =>
    (longString '"' true (rest.length + 1) (skipFirstLineEnd rest)).map fun (s, rest) =>
      (String.ofList s, rest)
  | '\'' :: '\'' :: '\'' :: rest =>
    (longString '\'' false (rest.length + 1) (skipFirstLineEnd rest)).map fun (s, rest) =>
      (String.ofList s, rest)
  | '"' :: rest => (basicString rest).map fun (s, rest) => (String.ofList s, rest)
  | '\'' :: rest => (literalString rest).map fun (s, rest) => (String.ofList s, rest)
  | _ => none

/-- A character of a key without quotes. -/
def isBareKey (c : Char) : Bool :=
  isDigit c || ('a' ≤ c && c ≤ 'z') || ('A' ≤ c && c ≤ 'Z') || c = '_' || c = '-'

/-- One part of a key. -/
def keyPart? : List Char → Read String
  | '"' :: rest => (basicString rest).map fun (s, rest) => (String.ofList s, rest)
  | '\'' :: rest => (literalString rest).map fun (s, rest) => (String.ofList s, rest)
  | cs =>
    let bare := cs.takeWhile isBareKey
    if bare.isEmpty then none else some (String.ofList bare, cs.dropWhile isBareKey)

/-- The parts of a dotted key, with spaces around them. `limit` bounds their number. -/
def keyParts? : Nat → List Char → Read (List String)
  | 0, _ => none
  | limit + 1, cs =>
    match keyPart? (skipSpace cs) with
    | none => none
    | some (part, rest) =>
      match skipSpace rest with
      | '.' :: rest => (keyParts? limit rest).map fun (parts, rest) => (part :: parts, rest)
      | rest => some ([part], rest)

/-- The deepest nesting of values and keys. -/
def depthLimit : Nat := 79

/-- A key: the parts before the last one, and the last one. -/
def key? (cs : List Char) : Read (List String × String) :=
  match keyParts? depthLimit cs with
  | none => none
  | some (parts, rest) =>
    match parts.getLast? with
    | none => none
    | some last => some ((parts.dropLast, last), rest)

/-- Digits of a base, with single underscores between digits. A read underscore has a digit
behind it. `more` tells that a digit was read. -/
def digitRun? (isDigit : Char → Bool) (more : Bool) : List Char → Read (List Char)
  | [] => if more then some ([], []) else none
  | ['_'] => none
  | '_' :: c :: rest =>
    if more && isDigit c then (digitRun? isDigit true rest).map fun (ds, rest) => (c :: ds, rest)
    else none
  | c :: rest =>
    if isDigit c then (digitRun? isDigit true rest).map fun (ds, rest) => (c :: ds, rest)
    else if more then some ([], c :: rest)
    else none

/-- A sign, if there is one. -/
def sign : List Char → Bool × List Char
  | '-' :: rest => (true, rest)
  | '+' :: rest => (false, rest)
  | cs => (false, cs)

/-- The digits of a decimal integer: zero, or digits of which the first is not zero. -/
def decimalDigits? : List Char → Read (List Char)
  | '0' :: '_' :: _ => none
  | '0' :: rest => some (['0'], rest)
  | cs => digitRun? isDigit false cs

/-- The value of decimal digits. -/
def decimalValue (ds : List Char) : Nat := ds.foldl (fun n c => 10 * n + (c.toNat - 48)) 0

/-- An exponent. -/
def exponent? : List Char → Read Int
  | c :: rest =>
    if c = 'e' || c = 'E' then
      let (negative, rest) := sign rest
      (digitRun? isDigit false rest).map fun (ds, rest) =>
        (if negative then -(decimalValue ds : Int) else decimalValue ds, rest)
    else none
  | [] => none

/-- The number of a decimal with digits before and behind the point. Nothing is given for a
positive number too large for the format. -/
def decimal? (negative : Bool) (whole fraction : List Char) (exponent : Int) : Option Binary64 :=
  let digits := decimalValue (whole ++ fraction)
  let places := exponent - fraction.length
  -- far outside the range of the format the exponent alone decides
  let places := max (-100000) (min 100000 places)
  let x := Binary64.ofDecimal negative digits places
  if x = Binary64.infinity then none else some x

/-- The smallest and the largest integer. -/
def integer? (negative : Bool) (magnitude : Nat) : Option Toml :=
  if negative then
    if magnitude ≤ 0x8000000000000000 then some (.integer (-(magnitude : Int))) else none
  else if magnitude < 0x8000000000000000 then some (.integer magnitude) else none

/-- An integer with a prefix that tells its base. -/
def basedInteger? (base : Nat) (cs : List Char) : Option (Toml × List Char) := do
  let digit (c : Char) : Bool := (hexValue? c).any (· < base)
  let (ds, rest) ← digitRun? digit false cs
  let n ← digitsValue? base ds
  let v ← integer? false n
  some (v, rest)

/-- An integer or a float. -/
def number? (cs : List Char) : Option (Toml × List Char) :=
  match cs with
  | '0' :: 'x' :: rest => basedInteger? 16 rest
  | '0' :: 'o' :: rest => basedInteger? 8 rest
  | '0' :: 'b' :: rest => basedInteger? 2 rest
  | _ =>
    let (negative, unsigned) := sign cs
    match unsigned with
    | 'i' :: 'n' :: 'f' :: rest =>
      some (.float (if negative then Binary64.infinity.neg else Binary64.infinity), rest)
    | 'n' :: 'a' :: 'n' :: rest =>
      some (.float (if negative then Binary64.nan.neg else Binary64.nan), rest)
    | _ => do
      let (whole, rest) ← decimalDigits? unsigned
      match rest with
      | '.' :: behind =>
        let (fraction, rest) ← digitRun? isDigit false behind
        match rest with
        | 'e' :: _ | 'E' :: _ =>
          let (exponent, rest) ← exponent? rest
          let x ← decimal? negative whole fraction exponent
          some (.float x, rest)
        | _ =>
          let x ← decimal? negative whole fraction 0
          some (.float x, rest)
      | 'e' :: _ | 'E' :: _ =>
        let (exponent, rest) ← exponent? rest
        let x ← decimal? negative whole [] exponent
        some (.float x, rest)
      | _ =>
        let v ← integer? negative (decimalValue whole)
        some (v, rest)

/-- The items of an array behind its opening bracket. `limit` bounds their number. -/
def items? (one : List Char → Read Toml) : Nat → List Char → Read (List Toml)
  | 0, _ => none
  | limit + 1, cs =>
    match skipAll cs with
    | ']' :: rest => some ([], rest)
    | cs =>
      match one cs with
      | none => none
      | some (v, rest) =>
        match skipAll rest with
        | ',' :: rest => (items? one limit rest).map fun (vs, rest) => (v :: vs, rest)
        | ']' :: rest => some ([v], rest)
        | _ => none

/-- A key, the equals sign, and a value. -/
def pair? (one : List Char → Read Toml) (cs : List Char) :
    Read ((List String × String) × Toml) :=
  match key? cs with
  | some (key, '=' :: rest) =>
    (one (skipSpace rest)).map fun (v, rest) => ((key, v), rest)
  | _ => none

/-- The entries of a table in braces, from a key on. `limit` bounds their number. -/
def pairs? (one : List Char → Read Toml) : Nat → Entries → List Char → Read Entries
  | 0, _, _ => none
  | limit + 1, es, cs =>
    match pair? one cs with
    | none => none
    | some (((path, key), v), rest) =>
      match addDotted? v key path es with
      | none => none
      | some es =>
        match skipSpace rest with
        | ',' :: rest => pairs? one limit es rest
        | '\x7d' :: rest => some (es, rest)
        | _ => none

/-- A value. `depth` bounds the nesting. -/
def value? : Nat → List Char → Read Toml
  | depth, cs =>
    match cs with
    | '"' :: _ | '\'' :: _ => (string? cs).map fun (s, rest) => (.string s, rest)
    | 't' :: 'r' :: 'u' :: 'e' :: rest => some (.bool true, rest)
    | 'f' :: 'a' :: 'l' :: 's' :: 'e' :: rest => some (.bool false, rest)
    | '[' :: rest =>
      match depth with
      | 0 => none
      | depth + 1 =>
        (items? (value? depth) (rest.length + 1) rest).map fun (vs, rest) => (.array vs, rest)
    | '\x7b' :: rest =>
      match depth with
      | 0 => none
      | depth + 1 =>
        match skipSpace rest with
        | '\x7d' :: rest => some (.table .inline [], rest)
        | rest =>
          (pairs? (value? depth) (rest.length + 1) [] rest).map fun (es, rest) =>
            (.table .inline es, rest)
    | _ =>
      match DateTime.read? cs with
      | some (t, rest) => some (.dateTime t, rest)
      | none => number? cs

/-- The lines of a document, with the table that is open. `limit` bounds their number. -/
def lines? : Nat → List String → Entries → List Char → Option Entries
  | 0, _, _, _ => none
  | limit + 1, opened, es, cs =>
    match skipSpace cs with
    | [] => some es
    | '[' :: rest => do
      let ((path, key), rest) ← key? rest
      match rest with
      | ']' :: rest =>
        let rest ← lineRest? rest
        let es ← openTable? key path es
        lines? limit (path ++ [key]) es rest
      | _ => none
    | c :: rest =>
      if c = '#' || c = '\n' || c = '\r' then do
        let rest ← lineRest? (c :: rest)
        lines? limit opened es rest
      else do
        let (((path, key), v), rest) ← pair? (value? depthLimit) (c :: rest)
        let rest ← lineRest? rest
        let es ← within? (addDotted? v key path) opened es
        lines? limit opened es rest

/-- The document of a text. A byte order mark in front is passed over. -/
def document? (text : String) : Option Entries :=
  let cs := match text.toList with
    | '\uFEFF' :: rest => rest
    | cs => cs
  lines? (cs.length + 1) [] [] cs

end Templating.Toml.Reader
