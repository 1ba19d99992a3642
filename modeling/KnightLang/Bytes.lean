/-!
Byte strings. Programs, names, messages and output are all lists of bytes, because a program need
not be valid UTF-8.
-/

namespace KnightLang

abbrev Bytes := List UInt8

namespace Bytes

/-- The UTF-8 bytes of a text. -/
def ofString (text : String) : Bytes := text.toUTF8.data.toList

instance : Coe String Bytes := ⟨ofString⟩

def ofNat (number : Nat) : Bytes := (Nat.toDigits 10 number).map Char.toUInt8

/-- The canonical decimal text of an integer, with a minus sign only for negative ones. -/
def ofInt : Int → Bytes
  | .ofNat number => ofNat number
  | .negSucc number => 45 :: ofNat (number + 1)

/-- The canonical decimal text of a 64-bit word. -/
def ofInt64 (number : Int64) : Bytes := ofInt number.toInt

/-- The text `true` or `false`. -/
def ofBool (flag : Bool) : Bytes := if flag then "true" else "false"

def joinWith (separator : Bytes) : List Bytes → Bytes
  | [] => []
  | [piece] => piece
  | piece :: pieces => piece ++ separator ++ joinWith separator pieces

/-- Removes the longest tail whose bytes all pass a test. -/
def dropRightWhile (test : UInt8 → Bool) (bytes : Bytes) : Bytes :=
  (bytes.reverse.dropWhile test).reverse

/-- The bytes before the first occurrence of a byte, and those after it if it occurs. -/
def splitAtByte (separator : UInt8) (bytes : Bytes) : Bytes × Option Bytes :=
  match bytes.dropWhile (· != separator) with
  | [] => (bytes, none)
  | _ :: after => (bytes.takeWhile (· != separator), some after)

end Bytes

namespace Byte

def newline : UInt8 := 10

def carriageReturn : UInt8 := 13

def backslash : UInt8 := 92

/-- Tab, line feed, vertical tab, form feed, carriage return and space. -/
def isSpace (byte : UInt8) : Bool := byte == 32 || (9 ≤ byte && byte ≤ 13)

def isDigit (byte : UInt8) : Bool := 48 ≤ byte && byte ≤ 57

def isLower (byte : UInt8) : Bool := 97 ≤ byte && byte ≤ 122

def isUpper (byte : UInt8) : Bool := 65 ≤ byte && byte ≤ 90

/-- Whether a byte only separates tokens: white space, a bracket of any shape, or a colon. -/
def isSeparator (byte : UInt8) : Bool :=
  isSpace byte || [40, 41, 91, 93, 123, 125, 58].contains byte

def isNameByte (byte : UInt8) : Bool := isLower byte || isDigit byte || byte == 95

def isNameStart (byte : UInt8) : Bool := isLower byte || byte == 95

/-- Whether a byte may follow the first letter of a word without changing its meaning. -/
def isWordByte (byte : UInt8) : Bool := isUpper byte || byte == 95

def toLower (byte : UInt8) : UInt8 := if isUpper byte then byte + 32 else byte

end Byte

def Bytes.isIdentifier : Bytes → Bool
  | [] => false
  | first :: rest => Byte.isNameStart first && rest.all Byte.isNameByte

end KnightLang
