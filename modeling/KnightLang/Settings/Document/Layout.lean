import KnightLang.Settings.Document.Text

/-!
How tokens follow from the layout of a document: deeper indentation opens a block and shallower
indentation closes it, and a colon turns what stands before it on the line into a name.
-/

namespace KnightLang.Document

namespace Reader

def nextToken (reader : Reader) : Nat := reader.taken + reader.queue.length

def push (reader : Reader) (token : Token) : Reader :=
  { reader with queue := reader.queue ++ [token] }

/-- Puts a token in front of the one with the given number, or at the end if that one is taken. -/
def insert (reader : Reader) (number : Nat) (token : Token) : Reader :=
  if number < reader.taken then reader.push token
  else
    let place := number - reader.taken
    { reader with queue := reader.queue.take place ++ token :: reader.queue.drop place }

def forget (reader : Reader) (token : Nat) : Reader :=
  { reader with nameDepths := reader.nameDepths.filter fun entry => entry.1 != token }

def nameAt? (reader : Reader) (depth : Nat) : Option NameStart :=
  if depth = reader.depth then some reader.name
  else if depth < reader.depth then reader.outerNames[reader.depth - 1 - depth]?
  else none

def setNameAt (reader : Reader) (depth : Nat) (name : NameStart) : Reader :=
  if depth = reader.depth then { reader with name }
  else { reader with outerNames := reader.outerNames.set (reader.depth - 1 - depth) name }

/-- Whether it is too late for the colon after a name, which has to follow it on its line and within
so many characters. -/
def isLate (reader : Reader) (name : NameStart) : Bool :=
  name.place.line < reader.place.line || name.place.index + 1024 < reader.place.index

/-- Closes the blocks that are deeper than the given column; without one, all of them. `fuel` bounds
their number. -/
def closeBlocks (column : Option Nat) : Nat → Reader → Reader
  | 0, reader => reader
  | fuel + 1, reader =>
    match reader.indent with
    | none => reader
    | some indent =>
      if column.all (· < indent) then
        closeBlocks column fuel
          { reader.push .blockEnd with
            indent := reader.outerIndents.headD none, outerIndents := reader.outerIndents.tail }
      else reader

/-- Closes the blocks that are deeper than the given column, unless brackets are open. -/
def unindent (reader : Reader) (column : Option Nat) : Reader :=
  if reader.inBrackets then reader
  else closeBlocks column (reader.outerIndents.length + 1) reader

/-- Opens a block in the given column if it is deeper than the current one and no brackets are open.
Its token comes in front of the one with the given number, or at the end. -/
def openBlock (reader : Reader) (column : Nat) (number : Option Nat) (token : Token) : Reader :=
  if reader.inBrackets || !reader.indent.all (· < column) then reader
  else
    let reader :=
      { reader with indent := some column, outerIndents := reader.indent :: reader.outerIndents }
    match number with
    | some number => reader.insert number token
    | none => reader.push token

def openBracket (reader : Reader) : Reader :=
  { reader with
    name := { token := reader.nextToken, place := reader.place }
    outerNames := reader.name :: reader.outerNames }

/-- Closes a bracket, if one is open. -/
def closeBracket (reader : Reader) : Reader :=
  match reader.outerNames with
  | [] => reader
  | outer :: outerNames => { reader.forget reader.name.token with name := outer, outerNames }

end Reader

/-- Whether the latest possible name at a depth of brackets can still become one. It has to, if it
is required. -/
def canBeName (depth : Nat) : Read Bool := do
  let reader ← get
  match reader.nameAt? depth with
  | none => return false
  | some name =>
    if !name.isPossible then return false
    else if !reader.isLate name then return true
    else if name.isRequired then failure
    else
      set (reader.setNameAt depth { name with isPossible := false })
      return false

/-- Gives up the latest possible name, which may not be a required one. -/
def dropName : Read PUnit := do
  let reader ← get
  if reader.name.isPossible then
    if reader.name.isRequired then failure
    else
      set { reader.forget reader.name.token with
        name := { reader.name with isPossible := false } }

/-- Notes that a name may begin here, if that is so. -/
def startName : Read PUnit := do
  if (← get).allowsName then
    dropName
    modify fun reader =>
      { reader with
        name :=
          { isPossible := true
            isRequired := !reader.inBrackets && reader.indent == some reader.place.column
            token := reader.nextToken
            place := reader.place }
        nameDepths :=
          (reader.nextToken, reader.depth) ::
            reader.nameDepths.filter fun entry => entry.1 != reader.nextToken }

def allowName (isAllowed : Bool) : Read PUnit :=
  modify fun reader => { reader with allowsName := isAllowed }

def push (token : Token) : Read PUnit := modify fun reader => reader.push token

def pushSign (length : Nat) (token : Token) : Read PUnit := do
  skip length
  push token

/-- Moves past blanks, comments and line ends. A tab may only stand where no name can begin, or
inside brackets, and a line may begin with a byte order mark. `fuel` bounds the number of lines. -/
def skipToToken : Nat → Read PUnit
  | 0 => return
  | fuel + 1 => do
    need 1
    let reader ← get
    if reader.place.column == 0 && reader.characters.isMarked then skip 1
    let tabs := reader.inBrackets || !reader.allowsName
    skipWhile fun character => character == ' ' || (tabs && character == '\t')
    if (← peek) == '#' then skipWhile fun character => !endsLine character
    if isBreak (← peek) then
      let _ ← readBreak
      if !reader.inBrackets then allowName true
      skipToToken fuel

/-- The end of the text, after which a line may not go on. -/
def fetchTextEnd : Read PUnit := do
  modify fun reader =>
    let place :=
      if reader.place.column = 0 then reader.place
      else { reader.place with line := reader.place.line + 1, column := 0 }
    { reader with place }.unindent none
  dropName
  allowName false
  push .textEnd

/-- A directive, which ends all blocks. -/
def fetchDirective : Read PUnit := do
  modify fun reader => reader.unindent none
  dropName
  allowName false
  push (← readDirective)

/-- A marker between documents, which ends all blocks. -/
def fetchMarker (token : Token) : Read PUnit := do
  modify fun reader => reader.unindent none
  dropName
  allowName false
  pushSign 3 token

/-- An opening bracket, which may begin a name and may be followed by one. -/
def fetchOpen (token : Token) : Read PUnit := do
  startName
  modify Reader.openBracket
  allowName true
  pushSign 1 token

def fetchClose (token : Token) : Read PUnit := do
  dropName
  modify Reader.closeBracket
  allowName false
  pushSign 1 token

/-- A comma, which may be followed by a name. -/
def fetchComma : Read PUnit := do
  dropName
  allowName true
  pushSign 1 .comma

/-- A sign that begins an entry of a block, and opens the block with its first entry. -/
def openEntry (block : Token) : Read PUnit := do
  let reader ← get
  if !reader.inBrackets then
    if reader.allowsName then set (reader.openBlock reader.place.column none block) else failure

def fetchDash : Read PUnit := do
  openEntry .blockSequence
  dropName
  allowName true
  pushSign 1 .dash

def fetchKey : Read PUnit := do
  openEntry .blockMapping
  dropName
  allowName (!(← get).inBrackets)
  pushSign 1 .key

/-- A colon. It turns what may be a name into one; otherwise it stands after a name of another form,
or after none. -/
def fetchValue : Read PUnit := do
  if ← canBeName (← get).depth then
    modify fun reader =>
      let name := reader.name
      let reader := reader.insert name.token .key
      let reader := reader.openBlock name.place.column (some name.token) .blockMapping
      { reader.forget name.token with
        name := { name with isPossible := false }, allowsName := false }
  else
    openEntry .blockMapping
    allowName (!(← get).inBrackets)
  pushSign 1 .value

/-- A token that may begin a name and is not followed by another one. -/
def fetchNamed (read : Read Token) : Read PUnit := do
  startName
  allowName false
  push (← read)

/-- A block of lines, which may be followed by a name. -/
def fetchBlock : Read PUnit := do
  dropName
  allowName true
  push (← readBlock)

def signs : List Char :=
  ['-', '?', ':', ',', '[', ']', '{', '}', '#', '&', '*', '!', '|', '>', Char.ofNat 39,
    Char.ofNat 34, '%', '@', '`']

def beginsPlain (inBrackets : Bool) (first second : Char) : Bool :=
  !(endsWord first || signs.contains first) || (first == '-' && !isBlank second) ||
    (!inBrackets && (first == '?' || first == ':') && !endsWord second)

/-- Reads the next token, and those that have to come before it, into the queue. -/
def fetchToken : Read PUnit := do
  skipToToken (← get).bound
  modify fun reader => reader.unindent (some reader.place.column)
  let isMarker ← atMarker
  let reader ← get
  let first ← peek
  let second ← peekAt 1
  let inBrackets := reader.inBrackets
  if isEnding first then fetchTextEnd
  else if first == '%' && reader.place.column == 0 then fetchDirective
  else if isMarker then fetchMarker (if first == '-' then .documentStart else .documentEnd)
  else if first == '[' then fetchOpen .bracketOpen
  else if first == '{' then fetchOpen .braceOpen
  else if first == ']' then fetchClose .bracketClose
  else if first == '}' then fetchClose .braceClose
  else if first == ',' then fetchComma
  else if first == '-' && endsWord second then fetchDash
  else if first == '?' && (inBrackets || endsWord second) then fetchKey
  else if first == ':' && (inBrackets || endsWord second) then fetchValue
  else if first == '*' then fetchNamed (do return .alias (← readName))
  else if first == '&' then fetchNamed (do return .anchor (← readName))
  else if first == '!' then fetchNamed readTag
  else if (first == '|' || first == '>') && !inBrackets then fetchBlock
  else if first.toNat == 39 || first.toNat == 34 then fetchNamed readQuoted
  else if beginsPlain inBrackets first second then fetchNamed readPlain
  else failure

/-- Reads tokens until there is one and it is known not to begin a name. `fuel` bounds their
number. -/
def fetchTokens : Nat → Read PUnit
  | 0 => failure
  | fuel + 1 => do
    let reader ← get
    let isSettled ←
      if reader.queue.isEmpty then pure false
      else
        match reader.nameDepths.lookup reader.taken with
        | none => pure true
        | some depth => do pure !(← canBeName depth)
    if !isSettled then
      fetchToken
      fetchTokens fuel

def nextToken : Read Token := do
  fetchTokens ((← get).bound + 2)
  match (← get).queue with
  | token :: _ => return token
  | [] => failure

def takeToken : Read PUnit :=
  modify fun reader => { reader with queue := reader.queue.tail, taken := reader.taken + 1 }

end KnightLang.Document
