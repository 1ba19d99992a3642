import KnightLang.Settings.Document.Node
import KnightLang.Text.Base64
import KnightLang.Text.Instant
import KnightLang.Text.Integer

/-!
What the scalars of a document mean. A tag says it; without one, plain scalars mean integers,
fractions, truth values or nothing where they look like that, and all others mean their text.
-/

namespace KnightLang

/-- What a scalar means. -/
inductive Meaning where
  | nothing
  | truth (flag : Bool)
  | integer (value : Int)
  /-- A number in double precision, by the integer that it is cut to if there is one. -/
  | fraction (whole : Option Int)
  | instant
  | text (bytes : Bytes)
  deriving DecidableEq, Repr

/-- A decimal number: whether it is negative, its digits without the point, how many of them stand
after the point, and its exponent. -/
structure Fraction where
  isNegative : Bool
  digits : Bytes
  places : Nat := 0
  exponent : Int := 0
  deriving DecidableEq, Repr

namespace Fraction

def exponent? : Bytes → Option Int
  | [] => some 0
  | mark :: rest =>
    if mark == 101 || mark == 69 then
      let (isNegative, digits) := Decimal.sign rest
      if digits.isEmpty || !digits.all Byte.isDigit then none
      else
        let size : Nat := Decimal.value digits
        some (if isNegative then -(size : Int) else (size : Int))
    else none

/-- A number with digits before or after a point, and an optional exponent. -/
def parse (text : Bytes) : Option Fraction :=
  let (isNegative, body) := Decimal.sign text
  let whole := body.takeWhile Byte.isDigit
  match body.dropWhile Byte.isDigit with
  | 46 :: rest =>
    let places := rest.takeWhile Byte.isDigit
    if whole.isEmpty && places.isEmpty then none
    else
      (exponent? (rest.dropWhile Byte.isDigit)).map fun exponent =>
        { isNegative, digits := whole ++ places, places := places.length, exponent }
  | rest =>
    if whole.isEmpty then none
    else (exponent? rest).map fun exponent => { isNegative, digits := whole, exponent }

/-- The largest power of ten below the largest finite number in double precision. -/
def maxExponent : Int := 308

/-- The nearest number in double precision, if it is finite. -/
def toFloat? (fraction : Fraction) : Option Float :=
  let mantissa := Decimal.value fraction.digits
  let scale := fraction.exponent - fraction.places
  let magnitude : Int := (Nat.toDigits 10 mantissa).length + scale
  if mantissa = 0 || magnitude < -maxExponent - 20 then some 0
  else if maxExponent + 1 < magnitude then none
  else
    let size := Float.ofScientific mantissa (scale < 0) scale.natAbs
    if size.isInf then none else some (if fraction.isNegative then -size else size)

end Fraction

namespace Meaning

/-- The integer that a number in double precision is cut to. One past the range of 64 bits is
refused above it and becomes the least integer at its end and below it. -/
def cut (number : Float) : Option Int :=
  if number > 9223372036854775808.0 then none
  else if number ≥ 9223372036854775808.0 || number < -9223372036854775808.0 then
    some (-Decimal.signedBound)
  else some number.toInt64.toInt

/-- The number in double precision that is nearest to an integer. -/
def ofInteger (value : Int) : Meaning :=
  let fraction : Fraction := { isNegative := value < 0, digits := Bytes.ofNat value.natAbs }
  .fraction (fraction.toFloat?.bind cut)

def nullWords : List Bytes := ["", "~", "null", "Null", "NULL"]

def trueWords : List Bytes :=
  ["y", "Y", "yes", "Yes", "YES", "true", "True", "TRUE", "on", "On", "ON"]

def falseWords : List Bytes :=
  ["n", "N", "no", "No", "NO", "false", "False", "FALSE", "off", "Off", "OFF"]

def negativeInfinities : List Bytes := ["-.inf", "-.Inf", "-.INF"]

/-- The words for positive infinity, and for what is not a number. -/
def otherInfinities : List Bytes :=
  [".inf", ".Inf", ".INF", "+.inf", "+.Inf", "+.INF", ".nan", ".NaN", ".NAN"]

/-- The fraction that a text stands for, or the text. -/
def fractionOr (text body : Bytes) : Meaning :=
  match (Fraction.parse body).bind Fraction.toFloat? with
  | some number => .fraction (cut number)
  | none => .text text

/-- The meaning of a text that begins like a number. Underscores between digits count for nothing,
and binary digits may have their sign after `0b`. -/
def ofNumeral (text : Bytes) : Meaning :=
  let compact := text.filter (· != 95)
  match Integer.signed true compact, Integer.unsigned true compact with
  | .ok value, _ => .integer value
  | .error _, .ok value => .integer value
  | .error _, .error _ =>
    match compact with
    | 48 :: 98 :: digits =>
      match Integer.signedIn 2 digits with
      | .ok value => .integer value
      | .error _ => .text text
    | _ => fractionOr text compact

def ofText (text : Bytes) : Meaning :=
  if nullWords.contains text then .nothing
  else if trueWords.contains text then .truth true
  else if falseWords.contains text then .truth false
  else if negativeInfinities.contains text then .fraction (some (-Decimal.signedBound))
  else if otherInfinities.contains text then .fraction none
  else
    match text with
    | [] => .nothing
    | first :: _ =>
      if first == 46 then
        if Integer.underscoresOk text then fractionOr text (text.filter (· != 95)) else .text text
      else if first == 43 || first == 45 || Byte.isDigit first then ofNumeral text
      else .text text

end Meaning

namespace Scalar

/-- What a scalar means. One whose text does not go with its tag has no meaning. -/
def meaning? (scalar : Scalar) : Option Meaning :=
  let standard := fun (name : String) => Document.standardTag ++ Bytes.ofString name
  let text := scalar.text
  if scalar.tag.isEmpty then some (if scalar.isOpen then .ofText text else .text text)
  else if scalar.tag == standard "binary" then (Base64.decode text).map .text
  else if scalar.tag == standard "timestamp" then
    if Instant.isInstant text then some .instant else none
  else if scalar.tag == standard "null" then
    if Meaning.ofText text = .nothing then some .nothing else none
  else if scalar.tag == standard "bool" then
    match Meaning.ofText text with
    | .truth flag => some (.truth flag)
    | _ => none
  else if scalar.tag == standard "int" then
    match Meaning.ofText text with
    | .integer value => some (.integer value)
    | _ => none
  else if scalar.tag == standard "float" then
    match Meaning.ofText text with
    | .fraction whole => some (.fraction whole)
    | .integer value => if value < Decimal.signedBound then some (.ofInteger value) else none
    | _ => none
  else some (.text text)

/-- A scalar as a text, which is written as it is unless it means another one; nothing is the empty
text. -/
def toText? (scalar : Scalar) : Option Bytes :=
  scalar.meaning?.map fun
    | .nothing => []
    | .text bytes => bytes
    | _ => scalar.text

/-- A scalar as a truth value; nothing is false. -/
def toBool? (scalar : Scalar) : Option Bool :=
  match scalar.meaning? with
  | some .nothing => some false
  | some (.truth flag) => some flag
  | _ => none

/-- A scalar as an integer of 64 bits; nothing is zero, and a fraction is cut toward zero. -/
def toInt? (scalar : Scalar) : Option Int :=
  match scalar.meaning? with
  | some .nothing => some 0
  | some (.integer value) => if value < Decimal.signedBound then some value else none
  | some (.fraction whole) => whole
  | _ => none

end Scalar

end KnightLang
