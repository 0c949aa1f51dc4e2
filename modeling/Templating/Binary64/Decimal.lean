import Templating.Binary64

/-!
# Shortest decimals

The decimal text of a double-precision number: of the decimals that read back as the number,
those with the fewest digits, and of these the nearest. On the grid of decimals with `n` digits
only the two neighbours of the number have to be tried.
-/

namespace Templating.Binary64

/-- Number of decimal digits of a natural number; zero has one. -/
def digitCount (n : Nat) : Nat := (Nat.toDigits 10 n).length

/-- The `k` with `10 ^ (k - 1) ≤ num / den < 10 ^ k`, for a positive quotient. -/
def decimalExponent (num den : Nat) : Int :=
  if den ≤ num then digitCount (num / den)
  else 1 - (digitCount ((den + num - 1) / num - 1) : Int)

/-- The decimals that read back as a number: those between `low / den` and `high / den`, the
ends included when `closed`. The number itself is `value / den`. -/
structure Interval where
  value : Nat
  low : Nat
  high : Nat
  den : Nat
  closed : Bool

/-- The interval of the number `significand * 2 ^ exponent`. Below a power of two the next
number is half as far as above it. -/
def Interval.ofFinite (significand : Nat) (exponent : Int) : Interval :=
  let nearBelow := significand = Nat.pow 2 52 ∧ exponent ≠ -1074
  let scale := Nat.pow 2 (exponent - 2).toNat
  { value := 4 * significand * scale
    low := (4 * significand - if nearBelow then 1 else 2) * scale
    high := (4 * significand + 2) * scale
    den := Nat.pow 2 (2 - exponent).toNat
    closed := significand % 2 = 0 }

/-- `digits * 10 ^ exponent` reads back as the number. -/
def Interval.holds (i : Interval) (digits : Nat) (exponent : Int) : Bool :=
  let p := Nat.pow 10 (-exponent).toNat
  let q := digits * (i.den * Nat.pow 10 exponent.toNat)
  if i.closed then i.low * p ≤ q && q ≤ i.high * p else i.low * p < q && q < i.high * p

/-- The neighbour of the number on the grid `10 ^ exponent` that reads back, the nearer one when
both do. -/
def Interval.onGrid? (i : Interval) (exponent : Int) : Option Nat :=
  let num := i.value * Nat.pow 10 (-exponent).toNat
  let den := i.den * Nat.pow 10 exponent.toNat
  let below := num / den
  let aboveIsNearer := den ≤ 2 * (num % den)
  match i.holds below exponent, i.holds (below + 1) exponent with
  | true, true => some (if aboveIsNearer then below + 1 else below)
  | true, false => some below
  | false, true => some (below + 1)
  | false, false => none

/-- Digits and exponent of the shortest decimal of a positive number. -/
def shortest (significand : Nat) (exponent : Int) : Nat × Int :=
  let i := Interval.ofFinite significand exponent
  let k := decimalExponent i.value i.den
  let found := (List.range 17).findSome? fun (n : Nat) =>
    let e : Int := k - (n + 1)
    (i.onGrid? e).map fun digits => (digits, e)
  match found with
  | none => (0, 0)
  | some (digits, e) =>
    -- a carry into a new place leaves a power of ten
    if digits = Nat.pow 10 (digitCount digits - 1) then (1, e + ((digitCount digits : Int) - 1))
    else (digits, e)

/-- The choices of a decimal text that the number leaves open. -/
structure DecimalStyle where
  /-- Whether an integral number shows a fraction. -/
  showFraction : Bool
  /-- Whether a number whose first digit stands at this power of ten is written with an exponent. -/
  exponential : Int → Bool

/-- Positional text of `digits * 10 ^ exponent`. -/
def positional (digits : Nat) (exponent : Int) (showFraction : Bool) : String :=
  let ds := Nat.toDigits 10 digits
  if 0 ≤ exponent then
    String.ofList (ds ++ List.replicate exponent.toNat '0') ++ (if showFraction then ".0" else "")
  else
    let places := (-exponent).toNat
    let padded := List.replicate (places + 1 - ds.length) '0' ++ ds
    let point := padded.length - places
    String.ofList (padded.take point ++ '.' :: padded.drop point)

/-- Text of `digits * 10 ^ exponent` with an exponent behind an `e`. -/
def scientific (digits : Nat) (exponent : Int) : String :=
  let ds := Nat.toDigits 10 digits
  let power := exponent + ((ds.length : Int) - 1)
  let mantissa :=
    match ds with
    | d :: [] => String.ofList [d]
    | d :: rest => String.ofList (d :: '.' :: rest)
    | [] => ""
  mantissa ++ "e" ++ toString power

/-- The decimal text of a number in a given style. -/
def format (style : DecimalStyle) (x : Binary64) : String :=
  let sign := if x.isNegative then "-" else ""
  match x.classify with
  | .nan => "NaN"
  | .infinite => sign ++ "inf"
  | .finite 0 _ => sign ++ (if style.showFraction then "0.0" else "0")
  | .finite m q =>
    let (digits, e) := shortest m q
    if style.exponential (e + ((digitCount digits : Int) - 1)) then sign ++ scientific digits e
    else sign ++ positional digits e style.showFraction

/-- Plain decimals: never an exponent, and no fraction where there is none. -/
def plain : DecimalStyle := ⟨false, fun _ => false⟩

/-- Decimals that show themselves as fractional numbers, with an exponent from `10 ^ 16` on and
below `10 ^ -4`. -/
def explicit : DecimalStyle := ⟨true, fun power => 16 ≤ power || power < -4⟩

/-- The plain decimal text of a number. -/
def toText (x : Binary64) : String := format plain x

end Templating.Binary64
