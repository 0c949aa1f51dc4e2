/-!
# UTF-8

Byte sequences as text. Decoding splits the bytes into characters and ill-formed sequences; an
ill-formed sequence is the longest start of a well-formed one, or a single byte. Lossy decoding
writes a replacement character for each, strict decoding refuses them.
-/

namespace Templating.Utf8

/-- The bytes of a text. -/
def encode (s : String) : List UInt8 := s.toList.flatMap String.utf8EncodeChar

/-- The character written for an ill-formed sequence. -/
def replacement : Char := '\uFFFD'

/-- A continuation byte. -/
def isTail (b : UInt8) : Bool := 0x80 ≤ b && b ≤ 0xBF

/-- What may follow a lead byte: the number of continuation bytes, the range of the first of
them, and the bits that the lead byte contributes. -/
def lead? (a : UInt8) : Option (Nat × UInt8 × UInt8 × Nat) :=
  if 0xC2 ≤ a && a ≤ 0xDF then some (1, 0x80, 0xBF, a.toNat - 0xC0)
  else if a == 0xE0 then some (2, 0xA0, 0xBF, 0)
  else if a == 0xED then some (2, 0x80, 0x9F, 0xD)
  else if 0xE1 ≤ a && a ≤ 0xEF then some (2, 0x80, 0xBF, a.toNat - 0xE0)
  else if a == 0xF0 then some (3, 0x90, 0xBF, 0)
  else if a == 0xF4 then some (3, 0x80, 0x8F, 4)
  else if 0xF1 ≤ a && a ≤ 0xF3 then some (3, 0x80, 0xBF, a.toNat - 0xF0)
  else none

/-- Read `n` continuation bytes onto `value`. Gives the finished value, if all are there, and
the number of bytes read. -/
def tails (value : Nat) : Nat → List UInt8 → Option Nat × Nat
  | 0, _ => (some value, 0)
  | _ + 1, [] => (none, 0)
  | n + 1, b :: rest =>
    if isTail b then
      let (result, count) := tails (value * 64 + (b.toNat - 0x80)) n rest
      (result, count + 1)
    else (none, 0)

/-- The character that begins with byte `a`, if the bytes that follow complete one, and the
number of those bytes that belong to it. -/
def sequenceAt (a : UInt8) (rest : List UInt8) : Option Char × Nat :=
  if a < 0x80 then (some (Char.ofNat a.toNat), 0)
  else
    match lead? a, rest with
    | some (n, low, high, bits), b :: after =>
      if low ≤ b && b ≤ high then
        let (value, count) := tails (bits * 64 + (b.toNat - 0x80)) (n - 1) after
        (value.map Char.ofNat, count + 1)
      else (none, 0)
    | _, _ => (none, 0)

/-- The characters of a byte sequence, with `none` for every ill-formed sequence. -/
def scalars : List UInt8 → List (Option Char)
  | [] => []
  | a :: rest =>
    let found := sequenceAt a rest
    found.1 :: scalars (rest.drop found.2)
  termination_by bytes => bytes.length
  decreasing_by simp only [List.length_drop, List.length_cons]; omega

/-- Decode, writing the replacement character for each ill-formed sequence. -/
def decodeLossy (bytes : List UInt8) : String :=
  String.ofList ((scalars bytes).map fun c => c.getD replacement)

/-- Decode, refusing ill-formed sequences. -/
def decode? (bytes : List UInt8) : Option String :=
  ((scalars bytes).mapM id).map String.ofList

end Templating.Utf8
