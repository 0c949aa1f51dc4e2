/-!
# Dates and times

Days of the calendar, times of day, and both together with an offset from universal time. Each is
read in the notation `2001-02-03T04:05:06.7+08:00`, in which a space or a small letter may stand
for the `T`, and is written in one way only.
-/

namespace Templating

/-- Years divisible by four, but of full centuries only those divisible by four hundred. -/
def isLeapYear (year : Nat) : Bool := year % 4 = 0 && (year % 100 ≠ 0 || year % 400 = 0)

/-- The number of days of a month. -/
def daysOfMonth (year month : Nat) : Nat :=
  if month = 2 then if isLeapYear year then 29 else 28
  else if month = 4 || month = 6 || month = 9 || month = 11 then 30
  else 31

/-- A day of the calendar. -/
structure Date where
  year : Nat
  month : Nat
  day : Nat
  month_valid : 1 ≤ month ∧ month ≤ 12
  day_valid : 1 ≤ day ∧ day ≤ daysOfMonth year month
  deriving DecidableEq, Repr

/-- A time of day. The last minute may have a leap second. -/
structure TimeOfDay where
  hour : Nat
  minute : Nat
  second : Nat
  nanosecond : Nat
  hour_valid : hour ≤ 23
  minute_valid : minute ≤ 59
  second_valid : second ≤ 60
  deriving DecidableEq, Repr

/-- How far a clock is ahead of universal time. -/
inductive UniversalOffset where
  /-- Universal time itself. -/
  | universal
  | minutes (ahead : Int)
  deriving DecidableEq, Repr

/-- A date, a time of day, or a time on a date. -/
inductive DateTime where
  | date (day : Date)
  | time (time : TimeOfDay)
  | moment (day : Date) (time : TimeOfDay) (offset : Option UniversalOffset)
  deriving DecidableEq, Repr

/-- The last decimal digits of a number, as many as asked for. -/
def fixedDigits : Nat → Nat → List Char
  | 0, _ => []
  | count + 1, n => fixedDigits count (n / 10) ++ [Nat.digitChar (n % 10)]

/-- The number that digits stand for, behind the value of the digits before them, and the rest
of the text. -/
def fixedNumber? : Nat → Nat → List Char → Option (Nat × List Char)
  | 0, n, cs => some (n, cs)
  | count + 1, n, c :: cs =>
    if c.isDigit then fixedNumber? count (10 * n + (c.toNat - 48)) cs else none
  | _ + 1, _, [] => none

/-- The text behind a character that has to come next. -/
def behind? (mark : Char) : List Char → Option (List Char)
  | [] => none
  | c :: cs => if c = mark then some cs else none

namespace Date

/-- The digits of a date. -/
def toChars (d : Date) : List Char :=
  fixedDigits 4 d.year ++ '-' :: fixedDigits 2 d.month ++ '-' :: fixedDigits 2 d.day

/-- The date that a text starts with. -/
def read? (cs : List Char) : Option (Date × List Char) := do
  let (year, cs) ← fixedNumber? 4 0 cs
  let cs ← behind? '-' cs
  let (month, cs) ← fixedNumber? 2 0 cs
  let cs ← behind? '-' cs
  let (day, cs) ← fixedNumber? 2 0 cs
  if h : (1 ≤ month ∧ month ≤ 12) ∧ 1 ≤ day ∧ day ≤ daysOfMonth year month then
    some (⟨year, month, day, h.1, h.2⟩, cs)
  else none

end Date

namespace TimeOfDay

/-- The fraction of a second, without zeros at its end. -/
def fractionChars (nanosecond : Nat) : List Char :=
  if nanosecond = 0 then []
  else '.' :: ((fixedDigits 9 nanosecond).reverse.dropWhile (· = '0')).reverse

/-- The digits of a time of day. -/
def toChars (t : TimeOfDay) : List Char :=
  fixedDigits 2 t.hour ++ ':' :: fixedDigits 2 t.minute ++ ':' :: fixedDigits 2 t.second ++
    fractionChars t.nanosecond

/-- The nanoseconds of a fraction, if a text starts with one. What is finer than a nanosecond is
cut off. -/
def readFraction (cs : List Char) : Nat × List Char :=
  match cs with
  | '.' :: rest =>
    let digits := rest.takeWhile Char.isDigit
    if digits.isEmpty then (0, cs)
    else
      let kept := (digits ++ List.replicate 9 '0').take 9
      (kept.foldl (fun n c => 10 * n + (c.toNat - 48)) 0, rest.dropWhile Char.isDigit)
  | _ => (0, cs)

/-- The time of day that a text starts with. -/
def read? (cs : List Char) : Option (TimeOfDay × List Char) := do
  let (hour, cs) ← fixedNumber? 2 0 cs
  let cs ← behind? ':' cs
  let (minute, cs) ← fixedNumber? 2 0 cs
  let cs ← behind? ':' cs
  let (second, cs) ← fixedNumber? 2 0 cs
  if h : hour ≤ 23 ∧ minute ≤ 59 ∧ second ≤ 60 then
    let (nanosecond, cs) := readFraction cs
    some (⟨hour, minute, second, nanosecond, h.1, h.2.1, h.2.2⟩, cs)
  else none

end TimeOfDay

namespace UniversalOffset

/-- The text of an offset. No difference counts as ahead. -/
def toChars : UniversalOffset → List Char
  | .universal => ['Z']
  | .minutes ahead =>
    let m := ahead.natAbs
    (if ahead < 0 then '-' else '+') :: fixedDigits 2 (m / 60) ++ ':' :: fixedDigits 2 (m % 60)

/-- The size of an offset in minutes. -/
def readMinutes? (cs : List Char) : Option (Nat × List Char) := do
  let (hour, cs) ← fixedNumber? 2 0 cs
  let cs ← behind? ':' cs
  let (minute, cs) ← fixedNumber? 2 0 cs
  if hour ≤ 23 && minute ≤ 59 then some (60 * hour + minute, cs) else none

/-- The offset that a text starts with. -/
def read? : List Char → Option (UniversalOffset × List Char)
  | [] => none
  | c :: cs =>
    if c = 'Z' || c = 'z' then some (.universal, cs)
    else if c = '+' then (readMinutes? cs).map fun (m, cs) => (.minutes m, cs)
    else if c = '-' then (readMinutes? cs).map fun (m, cs) => (.minutes (-(m : Int)), cs)
    else none

end UniversalOffset

namespace DateTime

/-- The one key under which a date or time is handed on where a table is asked for. -/
def tableKey : String := "$__toml_private_datetime"

/-- The text of a date or time. -/
def toText : DateTime → String
  | .date d => String.ofList d.toChars
  | .time t => String.ofList t.toChars
  | .moment d t offset =>
    String.ofList (d.toChars ++ 'T' :: t.toChars ++ (offset.map UniversalOffset.toChars).getD [])

/-- The time behind a date, with its offset. -/
def readTime? : List Char → Option ((TimeOfDay × Option UniversalOffset) × List Char)
  | [] => none
  | c :: cs =>
    if c = 'T' || c = 't' || c = ' ' then
      (TimeOfDay.read? cs).map fun (t, cs) =>
        match UniversalOffset.read? cs with
        | some (offset, rest) => ((t, some offset), rest)
        | none => ((t, none), cs)
    else none

/-- The date or time that a text starts with. -/
def read? (cs : List Char) : Option (DateTime × List Char) :=
  match Date.read? cs with
  | some (d, cs) =>
    match readTime? cs with
    | some ((t, offset), rest) => some (.moment d t offset, rest)
    | none => some (.date d, cs)
  | none => (TimeOfDay.read? cs).map fun (t, cs) => (.time t, cs)

end DateTime

end Templating
