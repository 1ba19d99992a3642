import KnightLang.Encoding.Charmap
import KnightLang.Source
import KnightLang.Text.Quoted

/-!
Character encodings of programs and input. Decoding turns bytes into UTF-8; what cannot be decoded
becomes U+FFFD.
-/

namespace KnightLang

/-- The order of the bytes in a unit. -/
inductive ByteOrder where
  | little
  | big
  deriving DecidableEq, Repr

/-- An encoding. Without a fixed order, the units of the wide ones are in the order of a leading
byte order mark, which is dropped, and else little-endian. -/
inductive Encoding where
  | utf8
  | windows1252
  | latin1
  | koi8r
  | macintosh
  | utf16 (order : Option ByteOrder)
  | utf32 (order : Option ByteOrder)
  deriving DecidableEq, Repr

namespace Encoding

/-- The encodings by name. The empty name means UTF-8. -/
def names : List (Bytes × Encoding) := [
  ("", .utf8),
  ("utf8", .utf8),
  ("ascii", .windows1252),
  ("latin1", .latin1),
  ("cp1252", .windows1252),
  ("utf16", .utf16 none),
  ("utf16le", .utf16 (some .little)),
  ("utf16be", .utf16 (some .big)),
  ("utf32", .utf32 none),
  ("utf32le", .utf32 (some .little)),
  ("utf32be", .utf32 (some .big)),
  ("koi8r", .koi8r),
  ("macroman", .macintosh)]

/-- The lower-case form of a code point, where it is an ASCII letter. -/
def lowerPoint (point : Nat) : Nat :=
  if 65 ≤ point && point ≤ 90 then point + 32
  else if point = 0x130 then 105
  else if point = 0x212A then 107
  else point

/-- A name as it stands in the table: in lower case and without dashes. -/
def key (name : Bytes) : Bytes :=
  (Utf8.pieces (name.filter (· != 45))).flatMap fun piece =>
    match piece with
    | .scalar point _ => Utf8.encode (lowerPoint point)
    | .stray _ => Utf8.encode Utf8.replacement

def find? (name : Bytes) : Option Encoding := names.lookup (key name)

def unknown (name : Bytes) : Bytes := "unknown encoding " ++ Quoted.text name

def unit16 (order : ByteOrder) (first second : UInt8) : Nat :=
  match order with
  | .little => first.toNat + 0x100 * second.toNat
  | .big => 0x100 * first.toNat + second.toNat

def unit32 (order : ByteOrder) (first second third fourth : UInt8) : Nat :=
  match order with
  | .little => unit16 .little first second + 0x10000 * unit16 .little third fourth
  | .big => 0x10000 * unit16 .big first second + unit16 .big third fourth

def isSurrogate (unit : Nat) : Bool := 0xD800 ≤ unit && unit ≤ 0xDFFF

def isTrailing (unit : Nat) : Bool := 0xDC00 ≤ unit && unit ≤ 0xDFFF

/-- The code point of two surrogates; only a leading one before a trailing one has one. -/
def pairPoint (first second : Nat) : Nat :=
  if isTrailing first then Utf8.replacement
  else 0x10000 + 0x400 * (first - 0xD800) + (second - 0xDC00)

/-- The code points of units of two bytes. A surrogate takes a trailing one after it along, and a
single byte at the end is none. -/
def points16 (order : ByteOrder) : Bytes → List Nat
  | [] => []
  | [_] => [Utf8.replacement]
  | first :: second :: third :: fourth :: rest =>
    let unit := unit16 order first second
    let next := unit16 order third fourth
    if isSurrogate unit && isTrailing next then pairPoint unit next :: points16 order rest
    else unit :: points16 order (third :: fourth :: rest)
  | first :: second :: rest => unit16 order first second :: points16 order rest

/-- The code points of units of four bytes. One to three bytes at the end are none. -/
def points32 (order : ByteOrder) : Bytes → List Nat
  | [] => []
  | first :: second :: third :: fourth :: rest =>
    unit32 order first second third fourth :: points32 order rest
  | _ => [Utf8.replacement]

/-- The UTF-8 form of code points; those that are no characters become U+FFFD. -/
def encodeAll (points : List Nat) : Bytes := points.flatMap Utf8.encode

/-- Decodes bytes to UTF-8. Only the wide encoding whose order is not fixed can fail, on too few
bytes for its mark. -/
def decode (encoding : Encoding) (bytes : Bytes) : Source :=
  match encoding with
  | .utf8 => { unread := bytes }
  | .windows1252 => { unread := encodeAll (bytes.map (Charmap.point Charmap.windows1252)) }
  | .latin1 => { unread := encodeAll (bytes.map UInt8.toNat) }
  | .koi8r => { unread := encodeAll (bytes.map (Charmap.point Charmap.koi8r)) }
  | .macintosh => { unread := encodeAll (bytes.map (Charmap.point Charmap.macintosh)) }
  | .utf16 (some order) => { unread := encodeAll (points16 order bytes) }
  | .utf16 none =>
    match bytes with
    | 0xFE :: 0xFF :: rest => { unread := encodeAll (points16 .big rest) }
    | 0xFF :: 0xFE :: rest => { unread := encodeAll (points16 .little rest) }
    | _ => { unread := encodeAll (points16 .little bytes) }
  | .utf32 (some order) => { unread := encodeAll (points32 order bytes) }
  | .utf32 none =>
    match bytes with
    | 0x00 :: 0x00 :: 0xFE :: 0xFF :: rest => { unread := encodeAll (points32 .big rest) }
    | 0xFF :: 0xFE :: 0x00 :: 0x00 :: rest => { unread := encodeAll (points32 .little rest) }
    | [] => { unread := [] }
    | _ :: _ :: _ :: _ :: _ => { unread := encodeAll (points32 .little bytes) }
    | _ => { unread := [], failure := some "transform: short source buffer" }

end Encoding

end KnightLang
