/-!
# Double-precision numbers

Numbers of the 64-bit binary floating-point format, held by their bits, so that two of them are
equal exactly when they are the same number with the same sign. A decimal is read by rounding
the exact quotient to the nearest number, a tie going to the even significand.
-/

namespace Templating

/-- A double-precision number, held by its bits. -/
structure Binary64 where
  bits : UInt64
  deriving DecidableEq, Repr, Inhabited

namespace Binary64

/-- What the bits of a number say. -/
inductive Class where
  | nan
  | infinite
  /-- The magnitude `significand * 2 ^ exponent`. -/
  | finite (significand : Nat) (exponent : Int)
  deriving DecidableEq, Repr

/-- The sign bit is set. -/
def isNegative (x : Binary64) : Bool := x.bits ≥ 0x8000000000000000

/-- The biased exponent. -/
def field (x : Binary64) : Nat := x.bits.toNat / Nat.pow 2 52 % Nat.pow 2 11

/-- The stored part of the significand. -/
def fraction (x : Binary64) : Nat := x.bits.toNat % Nat.pow 2 52

/-- The class of a number, without its sign. -/
def classify (x : Binary64) : Class :=
  if x.field = 2047 then (if x.fraction = 0 then .infinite else .nan)
  else if x.field = 0 then .finite x.fraction (-1074)
  else .finite (Nat.pow 2 52 + x.fraction) ((x.field : Int) - 1075)

/-- The number with the other sign. -/
def neg (x : Binary64) : Binary64 := ⟨x.bits ^^^ 0x8000000000000000⟩

/-- Divide and round to the nearest integer, a tie going to the even one. -/
def divHalfEven (num den : Nat) : Nat :=
  let q := num / den
  let r := num % den
  if 2 * r < den then q
  else if den < 2 * r then q + 1
  else q + q % 2

/-- The bits of positive infinity. -/
def infinityBits : Nat := 0x7FF * Nat.pow 2 52

/-- The exponent of the binary digit that stands first in `num / den`. -/
def leadingExponent (num den : Nat) : Int :=
  let guess : Int := (num.log2 : Int) - den.log2
  let below : Bool :=
    if guess < 0 then num * Nat.pow 2 (-guess).toNat < den
    else num < den * Nat.pow 2 guess.toNat
  if below then guess - 1 else guess

/-- The bits of the number nearest to `num / den`. -/
def magnitudeBits (num den : Nat) : Nat :=
  if num = 0 ∨ den = 0 then 0
  else
    let e := max (leadingExponent num den - 52) (-1074)
    let m :=
      if e < 0 then divHalfEven (num * Nat.pow 2 (-e).toNat) den
      else divHalfEven num (den * Nat.pow 2 e.toNat)
    min infinityBits (m + (e + 1074).toNat * Nat.pow 2 52)

/-- The number nearest to `num / den`, with the given sign. -/
def ofRatio (negative : Bool) (num den : Nat) : Binary64 :=
  let x : Binary64 := ⟨UInt64.ofNat (magnitudeBits num den)⟩
  if negative then x.neg else x

/-- The number nearest to `digits * 10 ^ exponent`, with the given sign. -/
def ofDecimal (negative : Bool) (digits : Nat) (exponent : Int) : Binary64 :=
  if exponent < 0 then ofRatio negative digits (Nat.pow 10 (-exponent).toNat)
  else ofRatio negative (digits * Nat.pow 10 exponent.toNat) 1

/-- The number nearest to an integer. -/
def ofInt (n : Int) : Binary64 := ofDecimal (n < 0) n.natAbs 0

/-- Positive infinity. -/
def infinity : Binary64 := ⟨UInt64.ofNat infinityBits⟩

/-- A quiet number that is not a number. -/
def nan : Binary64 := ⟨0x7FF8000000000000⟩

end Binary64

end Templating
