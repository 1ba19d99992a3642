import KnightLang.Text.Integer

/-!
Numbers at the front of the words of shell scripts.
-/

namespace KnightLang.Shell

namespace Numeral

/-- The value of a byte as a digit of a base. -/
def digitIn? (base : Nat) (byte : UInt8) : Option Nat :=
  (Integer.digit? byte).filter (· < base)

def valueIn (base : Nat) (digits : Bytes) : Nat :=
  digits.foldl (fun total byte => base * total + (digitIn? base byte).getD 0) 0

/-- The digits of a base at the front of a text. -/
def leadingDigits (base : Nat) (text : Bytes) : Bytes :=
  text.takeWhile fun byte => (digitIn? base byte).isSome

/-- An integer at the front of a text, and what follows it: blanks, a sign, and digits of base ten,
of base sixteen after `0x`, or of base eight after `0`. -/
def leadingInteger? (text : Bytes) : Option (Int × Bytes) :=
  let (isNegative, body) := Decimal.sign (text.dropWhile Byte.isSpace)
  let (base, body) := match body with
    | 48 :: mark :: digit :: rest =>
      if Byte.toLower mark == 120 && (digitIn? 16 digit).isSome then (16, digit :: rest)
      else (8, body)
    | 48 :: _ => (8, body)
    | _ => (10, body)
  let digits := leadingDigits base body
  if digits.isEmpty then none
  else
    let size : Int := valueIn base digits
    some (if isNegative then -size else size, body.drop digits.length)

def clamp (least most value : Int) : Int :=
  if value < least then least else if most < value then most else value

/-- The least and the greatest signed integer of 64 bits. -/
def least : Int := -Decimal.signedBound
def most : Int := Decimal.signedBound - 1

/-- The integer that a whole text stands for, blanks around it left out. A blank text stands for
zero. -/
def integer? (text : Bytes) : Option Int64 :=
  if text.all Byte.isSpace then some 0
  else
    match leadingInteger? text with
    | some (value, rest) =>
      if rest.all Byte.isSpace && least ≤ value && value ≤ most then some (Int64.ofInt value)
      else none
    | none => none

/-- The number that decimal digits in a text stand for, if it has no others and fits 31 bits. -/
def count? (text : Bytes) : Option Nat :=
  if text.isEmpty || !text.all Byte.isDigit then none
  else
    let value := Decimal.value text
    if value < 2147483648 then some value else none

end Numeral

end KnightLang.Shell
