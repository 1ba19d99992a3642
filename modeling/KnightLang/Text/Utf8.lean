import KnightLang.Bytes

/-!
UTF-8 over byte strings: one scalar value at a time, with every byte that begins no well-formed
sequence taken alone.
-/

namespace KnightLang.Utf8

/-- The code point written in place of what cannot be decoded. -/
def replacement : Nat := 0xFFFD

/-- The UTF-8 form of a code point; surrogates and numbers past U+10FFFF become U+FFFD. -/
def encode (point : Nat) : Bytes :=
  let valid := point < 0xD800 || (0xE000 ≤ point && point ≤ 0x10FFFF)
  let point := if valid then point else replacement
  if point < 0x80 then [point.toUInt8]
  else if point < 0x800 then
    [(0xC0 + point / 0x40).toUInt8, (0x80 + point % 0x40).toUInt8]
  else if point < 0x10000 then
    [(0xE0 + point / 0x1000).toUInt8, (0x80 + point / 0x40 % 0x40).toUInt8,
      (0x80 + point % 0x40).toUInt8]
  else
    [(0xF0 + point / 0x40000).toUInt8, (0x80 + point / 0x1000 % 0x40).toUInt8,
      (0x80 + point / 0x40 % 0x40).toUInt8, (0x80 + point % 0x40).toUInt8]

def isTail (byte : UInt8) : Bool := 0x80 ≤ byte && byte ≤ 0xBF

def tailBits (byte : UInt8) : Nat := byte.toNat % 0x40

/-- What stands at the front of a byte string. -/
inductive Piece where
  | scalar (point : Nat) (written : Bytes)
  | stray (byte : UInt8)
  deriving DecidableEq, Repr

/-- The length of the sequence that a first byte announces, and the least and greatest second byte
it allows. -/
def shape (first : UInt8) : Option (Nat × UInt8 × UInt8) :=
  if 0xC2 ≤ first && first ≤ 0xDF then some (2, 0x80, 0xBF)
  else if first == 0xE0 then some (3, 0xA0, 0xBF)
  else if first == 0xED then some (3, 0x80, 0x9F)
  else if 0xE1 ≤ first && first ≤ 0xEF then some (3, 0x80, 0xBF)
  else if first == 0xF0 then some (4, 0x90, 0xBF)
  else if 0xF1 ≤ first && first ≤ 0xF3 then some (4, 0x80, 0xBF)
  else if first == 0xF4 then some (4, 0x80, 0x8F)
  else none

def first (byte : UInt8) (rest : Bytes) : Piece :=
  if byte < 0x80 then .scalar byte.toNat [byte]
  else
    match shape byte, rest with
    | some (2, low, high), second :: _ =>
      if low ≤ second && second ≤ high then
        .scalar (byte.toNat % 0x20 * 0x40 + tailBits second) [byte, second]
      else .stray byte
    | some (3, low, high), second :: third :: _ =>
      if low ≤ second && second ≤ high && isTail third then
        .scalar (byte.toNat % 0x10 * 0x1000 + tailBits second * 0x40 + tailBits third)
          [byte, second, third]
      else .stray byte
    | some (4, low, high), second :: third :: fourth :: _ =>
      if low ≤ second && second ≤ high && isTail third && isTail fourth then
        .scalar (byte.toNat % 0x08 * 0x40000 + tailBits second * 0x1000 + tailBits third * 0x40
          + tailBits fourth) [byte, second, third, fourth]
      else .stray byte
    | _, _ => .stray byte

/-- Cuts a byte string into scalar values and stray bytes; `skip` counts the bytes that belong to
the piece already read. -/
def piecesAfter : Nat → Bytes → List Piece
  | _, [] => []
  | 0, byte :: rest =>
    let piece := first byte rest
    let length := match piece with
      | .scalar _ written => written.length
      | .stray _ => 1
    piece :: piecesAfter (length - 1) rest
  | skip + 1, _ :: rest => piecesAfter skip rest

def pieces (bytes : Bytes) : List Piece := piecesAfter 0 bytes

/-- The code point a piece stands for; a stray byte stands for U+FFFD. -/
def Piece.point : Piece → Nat
  | .scalar point _ => point
  | .stray _ => replacement

def Piece.written : Piece → Bytes
  | .scalar _ written => written
  | .stray byte => [byte]

/-- Whether a byte string is well-formed UTF-8. -/
def isValid (bytes : Bytes) : Bool :=
  (pieces bytes).all fun
    | .scalar .. => true
    | .stray _ => false

end KnightLang.Utf8
