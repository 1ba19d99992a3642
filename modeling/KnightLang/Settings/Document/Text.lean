import KnightLang.Settings.Document.Tag

/-!
The texts of scalars: plain ones, quoted ones, and blocks of indented lines.
-/

namespace KnightLang.Document

/-- Blanks and line ends inside a scalar that have been read but not yet written, the latest
first. -/
structure Gap where
  blanks : List Char := []
  /-- Whether a line ended. -/
  isBroken : Bool := false
  firstBreak : Option Char := none
  breaks : List Char := []
  deriving DecidableEq, Repr

namespace Gap

/-- The gap with one more blank; blanks at the front of a line count for nothing. -/
def blank (gap : Gap) (character : Char) : Gap :=
  if gap.isBroken then gap else { gap with blanks := character :: gap.blanks }

/-- The gap with one more line end; blanks before it count for nothing. -/
def lineEnd (gap : Gap) (character : Option Char) : Gap :=
  if gap.isBroken then { gap with breaks := character.toList ++ gap.breaks }
  else { gap with blanks := [], isBroken := true, firstBreak := character }

/-- What a gap becomes in the text: a single line end becomes a space, and the first of several is
left out unless it is one of the separators of lines and paragraphs. -/
def written (gap : Gap) : List Char :=
  if gap.isBroken then
    if gap.firstBreak == some '\n' then if gap.breaks.isEmpty then [' '] else gap.breaks
    else gap.breaks ++ gap.firstBreak.toList
  else gap.blanks

end Gap

/-- Reads blanks and line ends. No tab may stand in front of the given column of a line. `fuel`
bounds their number. -/
def readGap (column : Nat) : Nat → Gap → Read Gap
  | 0, gap => return gap
  | fuel + 1, gap => do
    need 1
    let character ← peek
    if isBlank character then
      if gap.isBroken && character == '\t' && (← get).place.column < column then failure
      skip 1
      readGap column fuel (gap.blank character)
    else if isBreak character then readGap column fuel (gap.lineEnd (← readBreak))
    else return gap

/-- Reads the characters of a plain scalar up to a blank or its end, with the gap before them.
`fuel` bounds their number. -/
def readPlainWord (inBrackets : Bool) : Nat → List Char → Gap → Read (List Char × Gap)
  | 0, text, gap => return (text, gap)
  | fuel + 1, text, gap => do
    let character ← peek
    if endsWord character || (character == ':' && endsWord (← peekAt 1))
        || (inBrackets && [',', '?', '[', ']', '{', '}'].contains character) then
      return (text, gap)
    else
      skip 1
      need 2
      readPlainWord inBrackets fuel (character :: (gap.written ++ text)) {}

/-- Reads a plain scalar, and says whether it ends after a line end. `fuel` bounds its words. -/
def readPlainWords (column : Nat) : Nat → List Char → Gap → Read (List Char × Bool)
  | 0, text, gap => return (text, gap.isBroken)
  | fuel + 1, text, gap => do
    if (← atMarker) || (← peek) == '#' then return (text, gap.isBroken)
    let reader ← get
    let (text, gap) ← readPlainWord reader.inBrackets reader.bound text gap
    let next ← peek
    if !(isBlank next || isBreak next) then return (text, gap.isBroken)
    let gap ← readGap column reader.bound gap
    let reader ← get
    if !reader.inBrackets && reader.place.column < column then return (text, gap.isBroken)
    readPlainWords column fuel text gap

/-- A plain scalar. A name may begin after one that ends with a line. -/
def readPlain : Read Token := do
  let reader ← get
  let (text, isBroken) ← readPlainWords reader.innerColumn reader.bound [] {}
  if isBroken then modify fun reader => { reader with allowsName := true }
  return .scalar (bytesOf text) true

def escape? (letter : Char) : Option Char :=
  match letter with
  | '0' => some (Char.ofNat 0)
  | 'a' => some (Char.ofNat 7)
  | 'b' => some (Char.ofNat 8)
  | 't' => some '\t'
  | '\t' => some '\t'
  | 'n' => some '\n'
  | 'v' => some (Char.ofNat 11)
  | 'f' => some (Char.ofNat 12)
  | 'r' => some '\r'
  | 'e' => some (Char.ofNat 27)
  | ' ' => some ' '
  | 'N' => some (Char.ofNat 0x85)
  | '_' => some (Char.ofNat 0xA0)
  | 'L' => some (Char.ofNat 0x2028)
  | 'P' => some (Char.ofNat 0x2029)
  | _ => if [34, 39, 92].contains letter.toNat then some letter else none

def escapeWidth? (letter : Char) : Option Nat :=
  match letter with
  | 'x' => some 2
  | 'u' => some 4
  | 'U' => some 8
  | _ => none

/-- The number that hexadecimal digits make with a number before them. -/
def readHex : Nat → Nat → Read Nat
  | 0, number => return number
  | count + 1, number => do
    match hexDigit? (← peek) with
    | none => failure
    | some digit =>
      skip 1
      readHex count (16 * number + digit)

def readEscape : Read Char := do
  let letter ← peekAt 1
  match escape? letter, escapeWidth? letter with
  | some character, _ =>
    skip 2
    return character
  | none, some width =>
    skip 2
    need width
    let code ← readHex width 0
    if (0xD800 ≤ code && code ≤ 0xDFFF) || 0x10FFFF < code then failure
    else return Char.ofNat code
  | none, none => failure

/-- Reads the characters of a quoted scalar up to a blank or a quote, and says whether a backslash
before a line end stopped them. `fuel` bounds their number. -/
def readQuotedWord (quote : Char) : Nat → List Char → Read (List Char × Bool)
  | 0, text => return (text, false)
  | fuel + 1, text => do
    let character ← peek
    if endsWord character then return (text, false)
    else if character == quote then
      if quote.toNat == 39 && (← peekAt 1) == quote then
        skip 2
        need 2
        readQuotedWord quote fuel (quote :: text)
      else return (text, false)
    else if quote.toNat == 34 && character == '\\' then
      if isBreak (← peekAt 1) then
        need 3
        skip 1
        let _ ← readBreak
        return (text, true)
      else
        let character ← readEscape
        need 2
        readQuotedWord quote fuel (character :: text)
    else
      skip 1
      need 2
      readQuotedWord quote fuel (character :: text)

/-- Reads a quoted scalar after its first quote. `fuel` bounds its words. -/
def readQuotedWords (quote : Char) : Nat → List Char → Read (List Char)
  | 0, _ => failure
  | fuel + 1, text => do
    if (← atMarker) || isEnding (← peek) then failure
    let bound := (← get).bound
    let (text, isBroken) ← readQuotedWord quote bound text
    need 1
    if (← peek) == quote then return text
    let gap ← readGap 0 bound { isBroken }
    readQuotedWords quote fuel (gap.written ++ text)

def readQuoted : Read Token := do
  let quote ← peek
  skip 1
  let text ← readQuotedWords quote (← get).bound []
  skip 1
  return .scalar (bytesOf text) false

/-- How the line ends after a block are kept. -/
inductive Chomping where
  | clip
  | strip
  | keep
  deriving DecidableEq, Repr

/-- The sign for how a block ends, if there is one. -/
def readChomping : Read (Option Chomping) := do
  need 1
  match ← peek with
  | '+' =>
    skip 1
    return some .keep
  | '-' =>
    skip 1
    return some .strip
  | _ => return none

/-- The digit for the indentation of a block, if there is one; it may not be zero. -/
def readIndentation : Read Nat := do
  need 1
  let digit ← peek
  if digit == '0' then failure
  else if digit.isDigit then
    skip 1
    return digit.toNat - 48
  else return 0

/-- Reads the line ends and the indentation before a line of a block, and gives the deepest column
seen and the line ends, the latest first and in front of others. While the indentation is not known
it is zero. `fuel` bounds the number of lines. -/
def readIndents (indent : Nat) : Nat → Nat → List Char → Read (Nat × List Char)
  | 0, deepest, breaks => return (deepest, breaks)
  | fuel + 1, deepest, breaks => do
    need 1
    let reader ← get
    let room := if indent = 0 then reader.bound else indent - reader.place.column
    let _ ← readWhile (· == ' ') room []
    need 1
    let column := (← get).place.column
    let deepest := if deepest < column then column else deepest
    if (indent = 0 || column < indent) && (← peek) == '\t' then failure
    if isBreak (← peek) then
      let character ← readBreak
      readIndents indent fuel deepest (character.toList ++ breaks)
    else return (deepest, breaks)

/-- The text of a block up to now, and what follows it. -/
structure Block where
  text : List Char := []
  lastBreak : Option Char := none
  breaks : List Char := []
  /-- Whether the last line begins with a blank. -/
  isIndented : Bool := false
  deriving DecidableEq, Repr

/-- The text with a line that begins with the given character about to follow. In a folded block a
line end between two lines that begin with no blank becomes a space, or is left out before others.
-/
def Block.joined (block : Block) (isFolded : Bool) (next : Char) : List Char :=
  let joint :=
    if isFolded && !block.isIndented && !isBlank next && block.lastBreak == some '\n' then
      if block.breaks.isEmpty then [' '] else []
    else block.lastBreak.toList
  block.breaks ++ joint ++ block.text

/-- Reads the lines of a block in the given column. `fuel` bounds their number. -/
def readLines (isFolded : Bool) (indent : Nat) : Nat → Block → Read Block
  | 0, block => return block
  | fuel + 1, block => do
    need 1
    let reader ← get
    let next ← peek
    if reader.place.column == indent && !isEnding next then
      let text ← readWhile (fun character => !endsLine character) reader.bound
        (block.joined isFolded next)
      need 2
      let lastBreak ← readBreak
      let (_, breaks) ← readIndents indent reader.bound 0 []
      readLines isFolded indent fuel { text, lastBreak, breaks, isIndented := isBlank next }
    else return block

/-- A block of lines, literal or folded. Its indentation is given, or that of the deepest of the
empty lines and the first line in it. -/
def readBlock : Read Token := do
  let isFolded := (← peek) == '>'
  skip 1
  let early ← readChomping
  let given ← readIndentation
  let late ← if early.isNone && given != 0 then readChomping else pure none
  need 1
  finishLine
  let reader ← get
  let base := reader.indent.getD 0
  let fixed := if given = 0 then 0 else base + given
  let (deepest, breaks) ← readIndents fixed reader.bound 0 []
  let least := if reader.innerColumn < 1 then 1 else reader.innerColumn
  let indent := if fixed != 0 then fixed else if deepest < least then least else deepest
  let block ← readLines isFolded indent reader.bound { breaks }
  let text := match (early.or late).getD .clip with
    | .strip => block.text
    | .clip => block.lastBreak.toList ++ block.text
    | .keep => block.breaks ++ block.lastBreak.toList ++ block.text
  return .scalar (bytesOf text) false

end KnightLang.Document
