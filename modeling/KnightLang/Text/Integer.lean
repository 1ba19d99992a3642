import KnightLang.Decimal

/-!
Integers as they are written in options and settings: an optional sign and digits, in base ten, or
in the base that a leading `0x`, `0o`, `0b` or `0` announces. With such a base, underscores may
stand between digits.
-/

namespace KnightLang.Integer

/-- What is wrong with the text of an integer. -/
inductive Problem where
  | malformed
  | outOfRange
  deriving DecidableEq, Repr

def Problem.message : Problem → Bytes
  | .malformed => "invalid syntax"
  | .outOfRange => "value out of range"

def digit? (byte : UInt8) : Option Nat :=
  if Byte.isDigit byte then some (byte.toNat - 48)
  else if Byte.isLower (Byte.toLower byte) then some ((Byte.toLower byte).toNat - 87)
  else none

/-- Reads digits of a base from left to right, below 2^64. The first digit that is not one, or
that takes the value out of range, ends it. -/
def digits (base : Nat) (skipsUnderscores : Bool) : Nat → Bytes → Except Problem Nat
  | total, [] => .ok total
  | total, byte :: rest =>
    if skipsUnderscores && byte == 95 then digits base skipsUnderscores total rest
    else
      match digit? byte with
      | none => .error .malformed
      | some value =>
        if base ≤ value then .error .malformed
        else if Decimal.unsignedBound ≤ base * total + value then .error .outOfRange
        else digits base skipsUnderscores (base * total + value) rest

/-- The base that a text announces, and its digits. -/
def announcedBase (text : Bytes) : Nat × Bytes :=
  match text with
  | 48 :: mark :: digit :: rest =>
    match Byte.toLower mark with
    | 98 => (2, digit :: rest)
    | 111 => (8, digit :: rest)
    | 120 => (16, digit :: rest)
    | _ => (8, mark :: digit :: rest)
  | 48 :: rest => (8, rest)
  | _ => (10, text)

/-- Whether every underscore stands between two digits; `afterDigit` says whether the byte before
was a digit, and `none` that it was an underscore. -/
def separated (isHex : Bool) : Option Bool → Bytes → Bool
  | previous, [] => previous.isSome
  | previous, byte :: rest =>
    let isDigit := Byte.isDigit byte ||
      (isHex && 97 ≤ Byte.toLower byte && Byte.toLower byte ≤ 102)
    if isDigit then separated isHex (some true) rest
    else if byte == 95 then previous == some true && separated isHex none rest
    else previous.isSome && separated isHex (some false) rest

/-- Whether the underscores of an unsigned text stand where they may. -/
def underscoresOk (text : Bytes) : Bool :=
  match text with
  | 48 :: mark :: rest =>
    if [98, 111, 120].contains (Byte.toLower mark) then
      separated (Byte.toLower mark == 120) (some true) rest
    else separated false (some false) text
  | _ => separated false (some false) text

/-- An unsigned integer below 2^64. -/
def unsigned (detectsBase : Bool) (text : Bytes) : Except Problem Nat :=
  if text.isEmpty then .error .malformed
  else
    let (base, body) := if detectsBase then announcedBase text else (10, text)
    match digits base detectsBase 0 body with
    | .error problem => .error problem
    | .ok value =>
      if body.contains 95 && !underscoresOk text then .error .malformed else .ok value

/-- An integer with a sign, if it is one of 64 bits. -/
def withSign (isNegative : Bool) (size : Nat) : Except Problem Int :=
  if isNegative then if Decimal.signedBound < size then .error .outOfRange else .ok (-size)
  else if Decimal.signedBound ≤ size then .error .outOfRange
  else .ok size

/-- A signed integer of 64 bits. -/
def signed (detectsBase : Bool) (text : Bytes) : Except Problem Int :=
  let (isNegative, body) := Decimal.sign text
  (unsigned detectsBase body).bind (withSign isNegative)

/-- A signed integer of 64 bits in the given base. -/
def signedIn (base : Nat) (text : Bytes) : Except Problem Int :=
  let (isNegative, body) := Decimal.sign text
  if body.isEmpty then .error .malformed
  else (digits base false 0 body).bind (withSign isNegative)

end KnightLang.Integer
