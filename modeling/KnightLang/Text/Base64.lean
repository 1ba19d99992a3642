import KnightLang.Bytes

/-!
Base64: four digits of six bits for three bytes, with padding at the end. Line ends between digits
count for nothing.
-/

namespace KnightLang.Base64

def digit? (byte : UInt8) : Option Nat :=
  if Byte.isUpper byte then some (byte.toNat - 65)
  else if Byte.isLower byte then some (byte.toNat - 71)
  else if Byte.isDigit byte then some (byte.toNat + 4)
  else if byte == 43 then some 62
  else if byte == 47 then some 63
  else none

/-- The first bytes of the three that four digits stand for. -/
def group (count first second third fourth : Nat) : Bytes :=
  let number := ((first * 64 + second) * 64 + third) * 64 + fourth
  [(number / 65536).toUInt8, (number / 256).toUInt8, number.toUInt8].take count

/-- Decodes groups of four digits, the last of which may be padded. -/
def groups : Bytes → Option Bytes
  | [] => some []
  | [first, second, 61, 61] => do return group 1 (← digit? first) (← digit? second) 0 0
  | [first, second, third, 61] => do
    return group 2 (← digit? first) (← digit? second) (← digit? third) 0
  | first :: second :: third :: fourth :: rest => do
    let bytes := group 3 (← digit? first) (← digit? second) (← digit? third) (← digit? fourth)
    return bytes ++ (← groups rest)
  | _ => none

def decode (text : Bytes) : Option Bytes :=
  groups (text.filter fun byte => byte != Byte.newline && byte != Byte.carriageReturn)

end KnightLang.Base64
