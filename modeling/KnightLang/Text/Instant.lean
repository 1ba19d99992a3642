import KnightLang.Decimal

/-!
Dates and times of day as settings may hold them: a year, a month and a day with dashes between
them, and perhaps a time, either after the letter `t` and with a time zone or after blanks and
without.
-/

namespace KnightLang.Instant

/-- A reader of a part of an instant, which gives what follows that part. -/
abbrev Part := Bytes → Option Bytes

/-- One or two digits, as a number. -/
def number : Bytes → Option (Nat × Bytes)
  | first :: second :: rest =>
    if !Byte.isDigit first then none
    else if Byte.isDigit second then some (10 * Decimal.digit first + Decimal.digit second, rest)
    else some (Decimal.digit first, second :: rest)
  | [first] => if Byte.isDigit first then some (Decimal.digit first, []) else none
  | [] => none

def below (limit : Nat) : Part := fun text => do
  let (value, rest) ← number text
  if value < limit then return rest else none

def sign (byte : UInt8) : Part
  | first :: rest => if first == byte then some rest else none
  | [] => none

def isLeapYear (year : Nat) : Bool := year % 4 = 0 && (year % 100 != 0 || year % 400 = 0)

def daysIn (year month : Nat) : Nat :=
  if month = 2 then if isLeapYear year then 29 else 28
  else if [4, 6, 9, 11].contains month then 30
  else 31

def date : Part := fun text => do
  let year := text.take 4
  if year.length != 4 || !year.all Byte.isDigit then none
  else
    let (month, rest) ← number (← sign 45 (text.drop 4))
    let (day, rest) ← number (← sign 45 rest)
    if 1 ≤ month && month ≤ 12 && 1 ≤ day && day ≤ daysIn (Decimal.value year) month then
      return rest
    else none

/-- A fraction of a second after a point or a comma, if there is one. -/
def fraction : Part
  | mark :: digit :: rest =>
    if (mark == 46 || mark == 44) && Byte.isDigit digit then some (rest.dropWhile Byte.isDigit)
    else some (mark :: digit :: rest)
  | rest => some rest

def time : Part := fun text => do
  fraction (← below 60 (← sign 58 (← below 60 (← sign 58 (← below 24 text)))))

def pair (limit : Nat) (first second : UInt8) : Bool :=
  Byte.isDigit first && Byte.isDigit second &&
    10 * Decimal.digit first + Decimal.digit second ≤ limit

/-- A time zone: the letter `Z`, or hours and minutes ahead or behind. -/
def zone : Part
  | 90 :: rest => some rest
  | sign :: hour :: hours :: 58 :: minute :: minutes :: rest =>
    if (sign == 43 || sign == 45) && pair 24 hour hours && pair 60 minute minutes then some rest
    else none
  | _ => none

def isInstant (text : Bytes) : Bool :=
  let isWhole := fun (rest : Option Bytes) => rest == some []
  match date text with
  | none => false
  | some [] => true
  | some (mark :: rest) =>
    if mark == 84 || mark == 116 then isWhole ((time rest).bind zone)
    else mark == 32 && isWhole (time (rest.dropWhile (· == 32)))

end KnightLang.Instant
