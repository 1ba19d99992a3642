import KnightLang.Bytes

/-!
Decimal text read as 64-bit words.
-/

namespace KnightLang.Decimal

/-- The least number past the range of a signed word: two to the power of 63. -/
def signedBound : Nat := 9223372036854775808

/-- The least number past the range of an unsigned word: two to the power of 64. -/
def unsignedBound : Nat := 18446744073709551616

def digit (byte : UInt8) : Nat := byte.toNat - 48

/-- The value of a run of digits, as an exact natural number. -/
def value (digits : Bytes) : Nat := digits.foldl (fun total byte => 10 * total + digit byte) 0

/-- The value of a run of digits, reduced to 64 bits at every step. -/
def wrappedValue (digits : Bytes) : Int64 :=
  digits.foldl (fun total byte => total * 10 + Int64.ofNat (digit byte)) 0

/-- Splits off an optional sign: whether it is a minus, and what follows. -/
def sign : Bytes → Bool × Bytes
  | 45 :: rest => (true, rest)
  | 43 :: rest => (false, rest)
  | rest => (false, rest)

/-- The number at the front of a text: white space, an optional sign and a run of digits, read
modulo 2^64. Without digits it is zero, and whatever follows the digits is ignored. -/
def leadingNumber (text : Bytes) : Int64 :=
  let (negative, rest) := sign (text.dropWhile Byte.isSpace)
  let number := wrappedValue (rest.takeWhile Byte.isDigit)
  if negative then -number else number

end KnightLang.Decimal
