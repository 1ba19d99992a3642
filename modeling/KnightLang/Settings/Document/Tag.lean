import KnightLang.Settings.Document.Token

/-!
Anchors, tags and directives: the parts of a document that name its nodes and their kinds.
-/

namespace KnightLang.Document

def hexDigit? (character : Char) : Option Nat :=
  if character.isDigit then some (character.toNat - 48)
  else if 'a' ≤ character && character ≤ 'f' then some (character.toNat - 87)
  else if 'A' ≤ character && character ≤ 'F' then some (character.toNat - 55)
  else none

/-- The characters after a name that need no blank between them. -/
def nameEndings : List Char := ['?', ':', ',', ']', '}', '%', '@', '`']

/-- The name after the sign of an anchor or an alias. -/
def readName : Read Bytes := do
  skip 1
  let name ← span isNameCharacter
  let next ← peek
  if name.isEmpty || !(endsWord next || nameEndings.contains next) then failure
  else return bytesOf name

/-- The handle at the front of a tag: an exclamation mark, and perhaps a name and another mark. In a
rule for tags the second mark may only be left out together with the name. -/
def readHandle (inRule : Bool) : Read Bytes := do
  need 1
  if (← peek) != '!' then failure
  skip 1
  let handle ← readWhile isNameCharacter (← get).bound ['!']
  if (← peek) == '!' then
    skip 1
    return bytesOf ('!' :: handle)
  else if inRule && handle != ['!'] then failure
  else return bytesOf handle

/-- Whether a character may stand in a tag as it is. -/
def isTagCharacter (character : Char) : Bool :=
  isNameCharacter character ||
    [';', '/', '?', ':', '@', '&', '=', '+', '$', ',', '.', '!', '~', '*', Char.ofNat 39, '(', ')',
      '[', ']'].contains character

/-- The byte that a percent sign and two hexadecimal digits stand for. -/
def readEscapedByte : Read UInt8 := do
  need 3
  let sign ← peek
  match hexDigit? (← peekAt 1), hexDigit? (← peekAt 2) with
  | some high, some low =>
    if sign == '%' then
      skip 3
      return UInt8.ofNat (16 * high + low)
    else failure
  | _, _ => failure

/-- The bytes that continue an escaped character, in front of those before them. -/
def readEscapedTail : Nat → Bytes → Read Bytes
  | 0, bytes => return bytes
  | count + 1, bytes => do
    let byte ← readEscapedByte
    if Utf8.isTail byte then readEscapedTail count (byte :: bytes) else failure

/-- The rest of a tag, the latest byte first and in front of others. `fuel` bounds its length. -/
def readTagBytes : Nat → Bytes → Read Bytes
  | 0, bytes => return bytes
  | fuel + 1, bytes => do
    need 1
    let character ← peek
    if character == '%' then
      let first ← readEscapedByte
      match announcedLength first with
      | 0 => failure
      | length + 1 => readTagBytes fuel (← readEscapedTail length (first :: bytes))
    else if isTagCharacter character then
      skip 1
      readTagBytes fuel (character.toNat.toUInt8 :: bytes)
    else return bytes

/-- The rest of a tag, which may not be empty. -/
def readTagText : Read Bytes := do
  let bytes ← readTagBytes (← get).bound []
  if bytes.isEmpty then failure else return bytes.reverse

/-- A tag: one in full between angle brackets, one with a handle, or one that the handle of a single
mark stands for. The lone mark has no handle. -/
def readTag : Read Token := do
  need 2
  let token ←
    if (← peekAt 1) == '<' then do
      skip 2
      let text ← readTagText
      if (← peek) != '>' then failure
      skip 1
      pure (Token.tag [] text)
    else do
      let handle ← readHandle false
      if 1 < handle.length && handle.getLast? == some 33 then
        pure (Token.tag handle (← readTagText))
      else
        let text ← readTagBytes (← get).bound handle.tail.reverse
        pure (if text.isEmpty then Token.tag [] handle else Token.tag [33] text.reverse)
  need 1
  if endsWord (← peek) then return token else failure

/-- The digits of a version, of which there are one or two. -/
def readVersionNumber : Read Nat := do
  let digits ← span Char.isDigit
  if digits.isEmpty || 2 < digits.length then failure
  else return digits.foldr (fun digit number => 10 * number + (digit.toNat - 48)) 0

/-- A directive after its name: the version of the format, or a rule for tags. -/
def readDirectiveValue (name : Bytes) : Read Token := do
  if name == Bytes.ofString "YAML" then
    skipWhile isBlank
    let major ← readVersionNumber
    if (← peek) != '.' then failure
    skip 1
    return .version major (← readVersionNumber)
  else if name == Bytes.ofString "TAG" then
    skipWhile isBlank
    let handle ← readHandle true
    need 1
    if !isBlank (← peek) then failure
    skipWhile isBlank
    let start ← readTagText
    need 1
    if endsWord (← peek) then return .tagRule handle start else failure
  else failure

def readDirective : Read Token := do
  skip 1
  let name ← span isNameCharacter
  if name.isEmpty || !endsWord (← peek) then failure
  let token ← readDirectiveValue (bytesOf name)
  finishLine
  return token

end KnightLang.Document
