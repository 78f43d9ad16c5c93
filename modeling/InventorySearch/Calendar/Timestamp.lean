import InventorySearch.Text.Basic

set_option autoImplicit false

/-!
# Dates and timestamps

Days, moments to the microsecond, and the forms in which moments are written. Nothing
is said about time zones.
-/
namespace InventorySearch.Calendar

/-!
## Calendar dates

Dates of the proleptic Gregorian calendar with astronomical year numbers, and
their numbering by days. Day 0 is 0001-01-01. Years are limited to the range in
which dates can be shown; nothing is said about time zones.
-/

def minYear : Int := -262143

def maxYear : Int := 262142

def isLeap (year : Int) : Bool := year % 4 == 0 && (year % 100 != 0 || year % 400 == 0)

def monthLength (year : Int) : Nat → Nat
  | 2 => if isLeap year then 29 else 28
  | 4 | 6 | 9 | 11 => 30
  | _ => 31

@[ext] structure Date where
  year : Int
  month : Nat
  day : Nat
  year_range : minYear ≤ year ∧ year ≤ maxYear
  month_range : 1 ≤ month ∧ month ≤ 12
  day_range : 1 ≤ day ∧ day ≤ monthLength year month
deriving DecidableEq

namespace Date

def ofFields? (year : Int) (month day : Nat) : Option Date :=
  if h : (minYear ≤ year ∧ year ≤ maxYear) ∧ (1 ≤ month ∧ month ≤ 12) ∧
      (1 ≤ day ∧ day ≤ monthLength year month) then
    some ⟨year, month, day, h.1, h.2.1, h.2.2⟩
  else none

theorem ofFields?_self (d : Date) : ofFields? d.year d.month d.day = some d := by
  simp [ofFields?, d.year_range, d.month_range, d.day_range]

def daysBeforeYear (year : Int) : Int :=
  365 * (year - 1) + (year - 1) / 4 - (year - 1) / 100 + (year - 1) / 400

def daysBeforeMonth (year : Int) : Nat → Nat
  | 0 => 0
  | 1 => 0
  | m + 1 => daysBeforeMonth year m + monthLength year m

def number (d : Date) : Int :=
  daysBeforeYear d.year + daysBeforeMonth d.year d.month + (d.day - 1 : Nat)

/-- The year that holds a day: 400 years have 146097 days, which puts the guess off by at most one. -/
def yearOf (n : Int) : Int :=
  let guess := n * 400 / 146097 + 1
  if n < daysBeforeYear guess then guess - 1
  else if daysBeforeYear (guess + 1) ≤ n then guess + 1
  else guess

/-- Finds month and day by taking whole months off `rest`, from `month` on and at most `left` times. -/
def locate (year : Int) : (left month rest : Nat) → Nat × Nat
  | 0, month, rest => (month, rest + 1)
  | left + 1, month, rest =>
    if rest < monthLength year month then (month, rest + 1)
    else locate year left (month + 1) (rest - monthLength year month)

def ofNumber? (n : Int) : Option Date :=
  let year := yearOf n
  let (month, day) := locate year 11 1 (n - daysBeforeYear year).toNat
  ofFields? year month day

/-- 1970-01-01, from which the store counts. -/
def epoch : Date := ⟨1970, 1, 1, by decide, by decide, by decide⟩

end Date

/-!
## Timestamps

A date with a time of day to the microsecond and no zone. Any minute may have a
sixtieth second, which is kept apart from second 0 of the next minute.
-/

@[ext] structure Timestamp where
  date : Date
  hour : Nat
  minute : Nat
  second : Nat
  micro : Nat
  clock : hour < 24 ∧ minute < 60 ∧ second ≤ 60 ∧ micro < 1000000
deriving DecidableEq

namespace Timestamp

def ofFields? (date : Date) (hour minute second micro : Nat) : Option Timestamp :=
  if h : hour < 24 ∧ minute < 60 ∧ second ≤ 60 ∧ micro < 1000000 then
    some ⟨date, hour, minute, second, micro, h⟩
  else none

theorem ofFields?_self (t : Timestamp) :
    ofFields? t.date t.hour t.minute t.second t.micro = some t := by
  simp [ofFields?, t.clock]

def microsPerDay : Int := 86400000000

def micros (t : Timestamp) : Int :=
  (t.date.number - Date.epoch.number) * microsPerDay +
    (((t.hour * 60 + t.minute) * 60 + t.second) * 1000000 + t.micro : Nat)

def ofMicros? (n : Int) : Option Timestamp := do
  let date ← Date.ofNumber? (n / microsPerDay + Date.epoch.number)
  let rest := (n % microsPerDay).toNat
  ofFields? date (rest / 3600000000) (rest / 60000000 % 60) (rest / 1000000 % 60) (rest % 1000000)

def wholeSecond (t : Timestamp) : Timestamp :=
  ⟨t.date, t.hour, t.minute, t.second, 0, t.clock.1, t.clock.2.1, t.clock.2.2.1, by decide⟩

def epoch : Timestamp := ⟨Date.epoch, 0, 0, 0, 0, by decide⟩

def ofMicros (n : Int) : Timestamp := (ofMicros? n).getD epoch

end Timestamp

/-!
## Written timestamps

The form `yyyy-MM-ddTHH:mm:ss` of filter literals and records, read leniently
and written exactly, and the form in which the store is given timestamps.

Reading skips blanks in front of every number and takes fewer digits than the
form shows. A year may have a sign, and then any number of digits; without one it
has at most four. Writing gives a sign to the years outside 0 to 9999 only, so
what is written is read back.
-/

open Text Text.Numeral

def digitsValue (ds : List Char) : Nat := ds.foldl (fun n c => 10 * n + (digit? c).getD 0) 0

def readDigits (cs : List Char) : Option (Nat × List Char) :=
  match cs.takeWhile Char.isDigit with
  | [] => none
  | ds => some (digitsValue ds, cs.drop ds.length)

def readDigitsUpTo (width : Nat) (cs : List Char) : Option (Nat × List Char) :=
  match (cs.take width).takeWhile Char.isDigit with
  | [] => none
  | ds => some (digitsValue ds, cs.drop ds.length)

def readYear (cs : List Char) : Option (Int × List Char) :=
  match trimStart cs with
  | '-' :: cs => (readDigits cs).map fun (n, rest) => (-(n : Int), rest)
  | '+' :: cs => (readDigits cs).map fun (n, rest) => (n, rest)
  | cs => (readDigitsUpTo 4 cs).map fun (n, rest) => (n, rest)

def readField (cs : List Char) : Option (Nat × List Char) := readDigitsUpTo 2 (trimStart cs)

def readMark (mark : Char) : List Char → Option (List Char)
  | [] => none
  | c :: cs => if c = mark then some cs else none

def readMarked (mark : Char) (cs : List Char) : Option (Nat × List Char) :=
  (readMark mark cs).bind readField

namespace Timestamp

def read? (cs : List Char) : Option Timestamp := do
  let (year, cs) ← readYear cs
  let (month, cs) ← readMarked '-' cs
  let (day, cs) ← readMarked '-' cs
  let (hour, cs) ← readMarked 'T' cs
  let (minute, cs) ← readMarked ':' cs
  let (second, cs) ← readMarked ':' cs
  match cs with
  | [] =>
    let date ← Date.ofFields? year month day
    ofFields? date hour minute second 0
  | _ => none

def readFraction : List Char → Option Nat
  | [] => some 0
  | '.' :: cs =>
    if cs.all Char.isDigit && !cs.isEmpty && cs.length ≤ 6 then
      some (digitsValue cs * Nat.pow 10 (6 - cs.length))
    else none
  | _ => none

/-- Reads the form in which rows are given to the store, `yyyy-MM-dd HH:mm:ss` with a fraction. -/
def readStored? (cs : List Char) : Option Timestamp := do
  let (sign, cs) := match cs with
    | '-' :: cs => ((-1 : Int), cs)
    | cs => (1, cs)
  let (year, cs) ← readDigits cs
  let (month, cs) ← (readMark '-' cs).bind (readDigitsUpTo 2)
  let (day, cs) ← (readMark '-' cs).bind (readDigitsUpTo 2)
  let (hour, cs) ← (readMark ' ' cs).bind (readDigitsUpTo 2)
  let (minute, cs) ← (readMark ':' cs).bind (readDigitsUpTo 2)
  let (second, cs) ← (readMark ':' cs).bind (readDigitsUpTo 2)
  let micro ← readFraction cs
  let date ← Date.ofFields? (sign * year) month day
  if second < 60 then ofFields? date hour minute second micro else none

def writeYear (year : Int) : List Char :=
  if 0 ≤ year ∧ year ≤ 9999 then padded 4 year.toNat
  else (if year < 0 then '-' else '+') :: padded 4 year.natAbs

def write (separator : Char) (t : Timestamp) : List Char :=
  writeYear t.date.year ++ '-' :: padded 2 t.date.month ++ '-' :: padded 2 t.date.day ++
    separator :: padded 2 t.hour ++ ':' :: padded 2 t.minute ++ ':' :: padded 2 t.second

def text (t : Timestamp) : String := String.ofList (t.write 'T')

/-- The text by which a timestamp is passed to the store. -/
def storedText (t : Timestamp) : String := String.ofList (t.write ' ')

/-- The fraction in three digits if they suffice, else in six; nothing for zero. -/
def fractionText (micro : Nat) : List Char :=
  if micro = 0 then []
  else if micro % 1000 = 0 then '.' :: padded 3 (micro / 1000)
  else '.' :: padded 6 micro

def preciseText (t : Timestamp) : String := String.ofList (t.write 'T' ++ fractionText t.micro)

end Timestamp

end InventorySearch.Calendar
