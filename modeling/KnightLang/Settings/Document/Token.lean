import KnightLang.Settings.Document.Characters

/-!
The tokens of a document, and the state of their reader. Whether a token begins the name of an entry
shows only at the colon behind it, so tokens wait in a queue until that is known.
-/

namespace KnightLang.Document

/-- A token. Those named for blocks stand for a change of indentation. -/
inductive Token where
  | version (major minor : Nat)
  | tagRule (handle start : Bytes)
  | documentStart
  | documentEnd
  | blockSequence
  | blockMapping
  | blockEnd
  | bracketOpen
  | bracketClose
  | braceOpen
  | braceClose
  | comma
  | dash
  | key
  | value
  | alias (name : Bytes)
  | anchor (name : Bytes)
  | tag (handle suffix : Bytes)
  | scalar (text : Bytes) (isPlain : Bool)
  | textEnd
  deriving DecidableEq, Repr

/-- A place in a text; lines and columns are counted from zero. -/
structure Place where
  index : Nat := 0
  line : Nat := 0
  column : Nat := 0
  deriving DecidableEq, Repr

/-- A token that may turn out to begin a name; it is required to if its indentation leaves nothing
else. -/
structure NameStart where
  isPossible : Bool := false
  isRequired : Bool := false
  /-- The number of the token, counted from the beginning of the document. -/
  token : Nat := 0
  place : Place := {}
  deriving DecidableEq, Repr

/-- The state of a reader of tokens. -/
structure Reader where
  characters : Characters
  /-- More than the number of characters in the document. -/
  bound : Nat
  place : Place := {}
  /-- The tokens that are read and not yet taken, and the number of those that are. -/
  queue : List Token := []
  taken : Nat := 0
  /-- The latest possible name inside the current brackets, and those outside of them, the
  innermost first. -/
  name : NameStart := {}
  outerNames : List NameStart := []
  /-- The depth of brackets in which a token may begin a name. -/
  nameDepths : List (Nat × Nat) := []
  /-- The column of the current block, if there is one, and those of the blocks around it. -/
  indent : Option Nat := none
  outerIndents : List (Option Nat) := []
  /-- Whether a name may begin here. -/
  allowsName : Bool := true
  deriving DecidableEq, Repr

/-- A part of a reader's work, which may meet something that it has to refuse. -/
abbrev Read := StateT Reader Option

namespace Reader

def depth (reader : Reader) : Nat := reader.outerNames.length

def inBrackets (reader : Reader) : Bool := !reader.outerNames.isEmpty

def innerColumn (reader : Reader) : Nat := (reader.indent.map (· + 1)).getD 0

def skip (reader : Reader) (count : Nat) : Reader :=
  { reader with
    characters := reader.characters.drop count
    place :=
      { reader.place with
        index := reader.place.index + count, column := reader.place.column + count } }

def skipBreak (reader : Reader) (count : Nat) : Reader :=
  { reader with
    characters := reader.characters.drop count
    place := { index := reader.place.index + count, line := reader.place.line + 1, column := 0 } }

end Reader

def isBlank (character : Char) : Bool := character == ' ' || character == '\t'

def isBreak (character : Char) : Bool :=
  [0x0A, 0x0D, 0x85, 0x2028, 0x2029].contains character.toNat

def isEnding (character : Char) : Bool := character == Characters.ending

def endsLine (character : Char) : Bool := isBreak character || isEnding character

def endsWord (character : Char) : Bool := isBlank character || endsLine character

/-- Whether a character may stand in the name of an anchor. -/
def isNameCharacter (character : Char) : Bool :=
  character.isAlphanum || character == '_' || character == '-'

/-- Makes sure that the given number of characters can be looked at. -/
def need (count : Nat) : Read PUnit := fun reader =>
  (reader.characters.need count).map fun characters => (⟨⟩, { reader with characters })

def peekAt (distance : Nat) : Read Char := return (← get).characters.get distance

def peek : Read Char := peekAt 0

def skip (count : Nat) : Read PUnit := modify fun reader => reader.skip count

/-- Moves past a line end, if there is one, and gives it in the form in which a scalar holds it. -/
def readBreak : Read (Option Char) := do
  let character ← peek
  if isBreak character then
    need 2
    if character == '\r' && (← peekAt 1) == '\n' then
      modify fun reader => reader.skipBreak 2
      return some '\n'
    else
      modify fun reader => reader.skipBreak 1
      return some (if character.toNat < 0x2028 then '\n' else character)
  else return none

/-- Moves past all characters that pass a test and gives them, the latest first and in front of
others. `fuel` bounds their number. -/
def readWhile (test : Char → Bool) : Nat → List Char → Read (List Char)
  | 0, text => return text
  | fuel + 1, text => do
    need 1
    let character ← peek
    if test character then
      skip 1
      readWhile test fuel (character :: text)
    else return text

def skipWhile (test : Char → Bool) : Read PUnit := do
  let _ ← readWhile test (← get).bound []

/-- The characters that pass a test, the latest first. -/
def span (test : Char → Bool) : Read (List Char) := do readWhile test (← get).bound []

/-- The UTF-8 form of characters that are given the latest first. -/
def bytesOf (text : List Char) : Bytes :=
  text.reverse.flatMap fun character => Utf8.encode character.toNat

/-- Moves past blanks and a comment to the end of a line, and past the line end. Nothing else may
stand there. -/
def finishLine : Read PUnit := do
  skipWhile isBlank
  if (← peek) == '#' then skipWhile fun character => !endsLine character
  if endsLine (← peek) then
    let _ ← readBreak
  else failure

def atMarker : Read Bool := do
  need 4
  let reader ← get
  let mark := reader.characters.get 0
  return reader.place.column == 0 && (mark == '-' || mark == '.')
    && reader.characters.get 1 == mark && reader.characters.get 2 == mark
    && endsWord (reader.characters.get 3)

end KnightLang.Document
