import KnightLang.Text.Utf8
import KnightLang.Text.Unicode

/-!
Quoted text: a byte string written between quotes so that every byte can be read off it, with
printable characters as they are and all others escaped.
-/

namespace KnightLang.Quoted

/-- A hexadecimal digit, in lower case. -/
def hexDigit (value : Nat) : UInt8 := (if value < 10 then 48 + value else 87 + value).toUInt8

/-- A number as exactly `width` hexadecimal digits. -/
def hex : Nat → Nat → Bytes
  | 0, _ => []
  | width + 1, value => hex width (value / 16) ++ [hexDigit (value % 16)]

/-- The letter that escapes a control character, where it has one. -/
def escapeLetter? (point : Nat) : Option UInt8 :=
  match point with
  | 7 => some 97
  | 8 => some 98
  | 9 => some 116
  | 10 => some 110
  | 11 => some 118
  | 12 => some 102
  | 13 => some 114
  | _ => none

def escapePoint (quote : UInt8) (point : Nat) : Bytes :=
  if point == quote.toNat || point == 92 then [92, point.toUInt8]
  else if Unicode.isPrintable point then Utf8.encode point
  else
    match escapeLetter? point with
    | some letter => [92, letter]
    | none =>
      if point < 0x20 || point == 0x7F then "\\x" ++ hex 2 point
      else if point < 0x10000 then "\\u" ++ hex 4 point
      else "\\U" ++ hex 8 point

/-- A piece of text inside quotes; a stray byte is written in hexadecimal. -/
def escapePiece (quote : UInt8) : Utf8.Piece → Bytes
  | .scalar point _ => escapePoint quote point
  | .stray byte => "\\x" ++ hex 2 byte.toNat

def text (bytes : Bytes) : Bytes :=
  34 :: (Utf8.pieces bytes).flatMap (escapePiece 34) ++ [34]

def point (point : Nat) : Bytes := 39 :: escapePoint 39 point ++ [39]

/-- A byte, taken as the code point of its number, in single quotes. -/
def byte (byte : UInt8) : Bytes := point byte.toNat

end KnightLang.Quoted
