import KnightLang.Text.Utf8

/-!
The characters of a document, decoded as far as a reader looks ahead. Bytes are decoded in pieces of
a fixed size, and a piece that holds anything but allowed characters is refused as a whole, so what
lies behind the part that is read may be anything.
-/

namespace KnightLang.Document

/-- How characters are written as bytes. -/
inductive Coding where
  | utf8
  | utf16 (bigEndian : Bool)
  deriving DecidableEq, Repr

/-- What stands at the front of some bytes: a code point and what follows it, or the beginning of
one. -/
inductive Front where
  | point (code : Nat) (rest : Bytes)
  | incomplete
  | invalid
  deriving DecidableEq, Repr

/-- The length of the sequence that a first byte announces; no sequence begins with a byte that
announces none. -/
def announcedLength (first : UInt8) : Nat :=
  if first < 0x80 then 1
  else if first < 0xC0 then 0
  else if first < 0xE0 then 2
  else if first < 0xF0 then 3
  else if first < 0xF8 then 4
  else 0

/-- The front of bytes in UTF-8. -/
def frontUtf8 (first : UInt8) (rest : Bytes) : Front :=
  let length := announcedLength first
  if length = 0 then .invalid
  else if (rest.take (length - 1)).length < length - 1 then .incomplete
  else
    match Utf8.first first rest with
    | .scalar code _ => .point code (rest.drop (length - 1))
    | .stray _ => .invalid

/-- The unit of UTF-16 that two bytes make. -/
def unit (bigEndian : Bool) (first second : UInt8) : Nat :=
  if bigEndian then 256 * first.toNat + second.toNat else 256 * second.toNat + first.toNat

/-- The front of bytes in UTF-16. -/
def frontUtf16 (bigEndian : Bool) : Bytes → Front
  | first :: second :: rest =>
    let high := unit bigEndian first second
    if 0xDC00 ≤ high && high < 0xE000 then .invalid
    else if 0xD800 ≤ high && high < 0xDC00 then
      match rest with
      | third :: fourth :: rest =>
        let low := unit bigEndian third fourth
        if 0xDC00 ≤ low && low < 0xE000 then
          .point (0x10000 + (high - 0xD800) * 0x400 + (low - 0xDC00)) rest
        else .invalid
      | _ => .incomplete
    else .point high rest
  | _ => .incomplete

/-- The front of bytes of which there is at least one. -/
def Coding.front (coding : Coding) (first : UInt8) (rest : Bytes) : Front :=
  match coding with
  | .utf8 => frontUtf8 first rest
  | .utf16 bigEndian => frontUtf16 bigEndian (first :: rest)

def isAllowed (code : Nat) : Bool :=
  [9, 10, 13, 0x85].contains code || (0x20 ≤ code && code ≤ 0x7E) ||
    (0xA0 ≤ code && code ≤ 0xFFFD) || 0x10000 ≤ code

/-- The characters of a piece, and the bytes at its end that only begin a character. `fuel` bounds
the number of characters. -/
def Coding.decode (coding : Coding) : Nat → Bytes → Option (List Char × Bytes)
  | 0, left => some ([], left)
  | _, [] => some ([], [])
  | fuel + 1, first :: rest =>
    match coding.front first rest with
    | .invalid => none
    | .incomplete => some ([], first :: rest)
    | .point code rest =>
      if isAllowed code then
        (coding.decode fuel rest).map fun (characters, left) =>
          (Char.ofNat code :: characters, left)
      else none

/-- The characters of a document from the next one on. -/
structure Characters where
  /-- Characters that are decoded and not yet read. -/
  ahead : List Char := []
  /-- The bytes that are not decoded. -/
  bytes : Bytes
  /-- How many of the bytes are known to begin a character that does not end with them. -/
  begun : Nat := 0
  coding : Coding := .utf8
  /-- The size of the next piece. -/
  piece : Nat
  /-- Whether a byte order mark was the next character when a piece was last decoded. -/
  isMarked : Bool := false
  deriving DecidableEq, Repr

namespace Characters

def pieceSize : Nat := 512

def mark : Char := Char.ofNat 0xFEFF

def ending : Char := Char.ofNat 0

/-- The characters of bytes, which are UTF-8 unless a mark in front of them says otherwise. A
document without any bytes is an empty line. -/
def ofBytes : Bytes → Characters
  | [] => { bytes := [Byte.newline], piece := pieceSize }
  | 0xFF :: 0xFE :: bytes => { bytes, coding := .utf16 false, piece := pieceSize - 2 }
  | 0xFE :: 0xFF :: bytes => { bytes, coding := .utf16 true, piece := pieceSize - 2 }
  | 0xEF :: 0xBB :: 0xBF :: bytes => { bytes, piece := pieceSize - 3 }
  | bytes => { bytes, piece := pieceSize }

def holds (characters : Characters) (count : Nat) : Bool :=
  count = 0 || !(characters.ahead.drop (count - 1)).isEmpty

/-- Decodes pieces until there are enough characters or the bytes end, which adds the ending. `fuel`
bounds the number of pieces. -/
def fill (count : Nat) : Nat → Characters → Option Characters
  | 0, characters => some characters
  | fuel + 1, characters =>
    if characters.holds count then some characters
    else if (characters.bytes.drop characters.begun).isEmpty then
      if characters.begun = 0 then
        some { characters with ahead := characters.ahead ++ [ending] }
      else none
    else
      let piece := characters.bytes.take characters.piece
      match characters.coding.decode piece.length piece with
      | none => none
      | some (decoded, left) =>
        fill count fuel
          { characters with
            ahead := characters.ahead ++ decoded
            bytes := left ++ characters.bytes.drop characters.piece
            begun := left.length
            piece := pieceSize }

/-- Decodes as much as it takes to look at the given number of characters. -/
def need (characters : Characters) (count : Nat) : Option Characters :=
  if characters.holds count then some characters
  else
    (fill count (characters.bytes.length + 1) characters).map fun characters =>
      { characters with isMarked := characters.ahead.head? == some mark }

def get (characters : Characters) (distance : Nat) : Char :=
  (characters.ahead.drop distance).headD ending

def drop (characters : Characters) (count : Nat) : Characters :=
  { characters with ahead := characters.ahead.drop count }

end Characters

end KnightLang.Document
