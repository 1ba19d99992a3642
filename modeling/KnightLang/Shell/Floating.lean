import KnightLang.Shell.Numeral

/-!
Floating-point numbers with 53 binary digits: how they are read, and how they are written in
decimal. Both are exact, by arithmetic on natural numbers.
-/

namespace KnightLang.Shell

/-- A floating-point number. -/
inductive Floating where
  /-- A mantissa times a power of two. -/
  | finite (isNegative : Bool) (mantissa : Nat) (exponent : Int)
  | infinite (isNegative : Bool)
  | notNumber (isNegative : Bool)
  deriving DecidableEq, Repr

namespace Floating

/-- A quotient rounded to the nearest natural number, and to the even one of two. -/
def roundQuotient (numerator denominator : Nat) : Nat :=
  let quotient := numerator / denominator
  let twice := 2 * (numerator % denominator)
  if denominator < twice || (twice == denominator && quotient % 2 == 1) then quotient + 1
  else quotient

/-- The numerator and the denominator of a quotient times a power of a base. -/
def scale (base : Nat) (exponent : Int) (numerator denominator : Nat) : Nat × Nat :=
  if 0 ≤ exponent then (numerator * Nat.pow base exponent.toNat, denominator)
  else (numerator, denominator * Nat.pow base (-exponent).toNat)

def leastExponent : Int := -1074

def exponentLimit : Int := 1024

/-- The floating-point number nearest to a quotient, and whether it is too large, or too small to
be exact. -/
def nearest (isNegative : Bool) (numerator denominator : Nat) : Floating × Bool :=
  if numerator = 0 then (.finite isNegative 0 0, false)
  else
    let guess : Int := Int.ofNat numerator.log2 - Int.ofNat denominator.log2 - 52
    let size := fun (exponent : Int) =>
      let (numerator, denominator) := scale 2 (-exponent) numerator denominator
      numerator / denominator
    let exponent := if size guess < Nat.pow 2 52 then guess - 1 else guess
    let bounded := if exponent < leastExponent then leastExponent else exponent
    let (scaled, divisor) := scale 2 (-bounded) numerator denominator
    let rounded := roundQuotient scaled divisor
    let (mantissa, power) :=
      if rounded = Nat.pow 2 53 then (Nat.pow 2 52, bounded + 1) else (rounded, bounded)
    if exponentLimit ≤ power + Int.ofNat mantissa.log2 then (.infinite isNegative, true)
    else
      let isTiny := mantissa < Nat.pow 2 52
      (.finite isNegative mantissa power, isTiny && scaled % divisor != 0)

/-- The digits around a point at the front of a text, how many stand after the point, and what
follows them. -/
def pointedDigits (base : Nat) (text : Bytes) : Bytes × Nat × Bytes :=
  let whole := Numeral.leadingDigits base text
  match text.drop whole.length with
  | 46 :: after =>
    let part := Numeral.leadingDigits base after
    if whole.isEmpty && part.isEmpty then ([], 0, text)
    else (whole ++ part, part.length, after.drop part.length)
  | after => (whole, 0, after)

/-- The exponent after a letter at the front of a text, and what follows it. -/
def exponent (letter : UInt8) (text : Bytes) : Int × Bytes :=
  match text with
  | mark :: rest =>
    let (isNegative, digits) := Decimal.sign rest
    let found := digits.takeWhile Byte.isDigit
    if Byte.toLower mark == letter && !found.isEmpty then
      let size : Int := Decimal.value found
      (if isNegative then -size else size, digits.drop found.length)
    else (0, text)
  | [] => (0, text)

/-- The number with some digits of a base and a power, unless it is far outside of all bounds. -/
def ofDigits (isNegative : Bool) (base power : Nat) (digits : Bytes) (exponent : Int) :
    Floating × Bool :=
  let value := Numeral.valueIn base digits
  let size := Int.ofNat digits.length * (if base = 16 then 4 else 1) + exponent
  if value = 0 then (.finite isNegative 0 0, false)
  else if 2000 < exponent && 2000 < size then (.infinite isNegative, true)
  else if size < -2000 then (.finite isNegative 0 0, true)
  else
    let (numerator, denominator) := scale power exponent value 1
    nearest isNegative numerator denominator

/-- A number at the front of a text, whether it is out of range, and what follows it. -/
def leading? (text : Bytes) : Option (Floating × Bool × Bytes) :=
  let (isNegative, body) := Decimal.sign (text.dropWhile Byte.isSpace)
  let lower := body.map Byte.toLower
  let starts := fun (name : Bytes) => name.isPrefixOf lower
  let hexadecimal? := match body with
    | 48 :: mark :: rest =>
      let (digits, places, after) := pointedDigits 16 rest
      if Byte.toLower mark == 120 && !digits.isEmpty then some (digits, places, after) else none
    | _ => none
  if starts "infinity" then some (.infinite isNegative, false, body.drop 8)
  else if starts "inf" then some (.infinite isNegative, false, body.drop 3)
  else if starts "nan" then some (.notNumber isNegative, false, body.drop 3)
  else
    match hexadecimal? with
    | some (digits, places, after) =>
      let (power, after) := exponent 112 after
      let (value, isOutside) := ofDigits isNegative 16 2 digits (power - 4 * Int.ofNat places)
      some (value, isOutside, after)
    | none =>
      let (digits, places, after) := pointedDigits 10 body
      if digits.isEmpty then none
      else
        let (power, after) := exponent 101 after
        let (value, isOutside) := ofDigits isNegative 10 10 digits (power - Int.ofNat places)
        some (value, isOutside, after)

def withPoint (keepsPoint : Bool) (places : Nat) (digits : Bytes) : Bytes :=
  let digits := List.replicate (places + 1 - digits.length) 48 ++ digits
  let whole := digits.take (digits.length - places)
  if places = 0 then if keepsPoint then whole ++ [46] else whole
  else whole ++ 46 :: digits.drop (digits.length - places)

/-- The number of places after which all digits of a value are zeros. -/
def placeLimit : Nat := 1100

/-- The places of a value that are worked out, and the zeros after them. -/
def knownPlaces (places : Nat) : Nat × Bytes :=
  if places ≤ placeLimit then (places, [])
  else (placeLimit, List.replicate (places - placeLimit) 48)

def fixed (keepsPoint : Bool) (places mantissa : Nat) (power : Int) : Bytes :=
  let (known, zeros) := knownPlaces places
  let (numerator, denominator) := scale 2 power (mantissa * Nat.pow 10 known) 1
  withPoint keepsPoint places (Bytes.ofNat (roundQuotient numerator denominator) ++ zeros)

/-- The power of ten at the first digit of a value other than zero. -/
def magnitude (numerator denominator : Nat) : Int :=
  if denominator ≤ numerator then Int.ofNat (Bytes.ofNat (numerator / denominator)).length - 1
  else
    match (List.range 400).find? fun power => denominator ≤ numerator * Nat.pow 10 power with
    | some power => -Int.ofNat power
    | none => 0

/-- The digits of a value, one before the point, and its power of ten. -/
def scientificDigits (places mantissa : Nat) (power : Int) : Bytes × Int :=
  if mantissa = 0 then (List.replicate (places + 1) 48, 0)
  else
    let (known, zeros) := knownPlaces places
    let (numerator, denominator) := scale 2 power mantissa 1
    let first := magnitude numerator denominator
    let (scaled, divisor) := scale 10 (Int.ofNat known - first) numerator denominator
    let digits := Bytes.ofNat (roundQuotient scaled divisor)
    if known + 1 < digits.length then (digits.take (known + 1) ++ zeros, first + 1)
    else (digits ++ zeros, first)

/-- A power of ten after its letter, with at least two digits. -/
def powerText (letter : UInt8) (power : Int) : Bytes :=
  let digits := Bytes.ofNat power.natAbs
  letter :: (if power < 0 then 45 else 43) :: (List.replicate (2 - digits.length) 48 ++ digits)

/-- Leaves out zeros at the end of the places after a point, and the point if nothing follows. -/
def dropZeros (text : Bytes) : Bytes :=
  if text.contains 46 then
    let shorter := Bytes.dropRightWhile (· == 48) text
    if shorter.getLast? == some 46 then shorter.dropLast else shorter
  else text

/-- A mantissa of 53 binary digits, or of fewer at the least power, in base sixteen, and its power
of two. -/
def hexadecimal (keepsPoint : Bool) (places : Option Nat) (mantissa : Nat) (power : Int) : Bytes :=
  let power := if mantissa = 0 then 0 else power + 52
  let text := fun (count digits : Nat) (zeros : Bytes) =>
    withPoint keepsPoint (count + zeros.length) ((Nat.toDigits 16 digits).map Char.toUInt8 ++ zeros)
  let digits := match places with
    | some count =>
      if count < 13 then text count (roundQuotient mantissa (Nat.pow 16 (13 - count))) []
      else text 13 mantissa (List.replicate (count - 13) 48)
    | none =>
      let short := dropZeros (text 13 mantissa [])
      if keepsPoint && !short.contains 46 then short ++ [46] else short
  let size := Bytes.ofNat power.natAbs
  48 :: 120 :: (digits ++ 112 :: (if power < 0 then 45 else 43) :: size)

/-- A value without its sign, as the conversion with a lower-case letter writes it. -/
def written (letter : UInt8) (keepsPoint : Bool) (precision : Option Nat) (mantissa : Nat)
    (power : Int) : Bytes :=
  let places := precision.getD 6
  let scientific := fun (places : Nat) =>
    let (digits, power) := scientificDigits places mantissa power
    (withPoint keepsPoint places digits, powerText 101 power)
  match letter with
  | 97 => hexadecimal keepsPoint precision mantissa power
  | 101 =>
    let (digits, power) := scientific places
    digits ++ power
  | 103 =>
    let places := if places = 0 then 1 else places
    let (_, first) := scientificDigits (places - 1) mantissa power
    let shorten := fun (text : Bytes) => if keepsPoint then text else dropZeros text
    if -4 ≤ first && first < Int.ofNat places then
      shorten (fixed keepsPoint (Int.ofNat places - 1 - first).toNat mantissa power)
    else
      let (digits, power) := scientific (places - 1)
      shorten digits ++ power
  | _ => fixed keepsPoint places mantissa power

end Floating

end KnightLang.Shell
