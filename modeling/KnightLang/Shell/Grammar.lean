import KnightLang.Shell.Word

/-!
The grammar of shell scripts. A script is read one complete command at a time, so that what stands
before a mistake still runs.
-/

namespace KnightLang.Shell

/-- A token of a script. -/
inductive Token where
  | word (parts : Word)
  /-- A word that the grammar gives a meaning at its place. -/
  | keyword (name : Bytes)
  | symbol (text : Bytes)
  /-- A redirection sign, with the channel that is written before it. -/
  | redirection (channel : Option Nat) (sign : Bytes)
  | newline
  | finish

def Token.description : Token → Bytes
  | .word _ => "word"
  | .keyword name => "\"" ++ name ++ "\""
  | .symbol text => "\"" ++ text ++ "\""
  | .redirection _ _ => "redirection"
  | .newline => "newline"
  | .finish => "end of file"

def Token.isKeyword (token : Token) (name : Bytes) : Bool :=
  match token with
  | .keyword found => found == name
  | _ => false

def Token.isSymbol (token : Token) (text : Bytes) : Bool :=
  match token with
  | .symbol found => found == text
  | _ => false

/-- The words with a meaning at the start of a command. -/
def keywords : List Bytes :=
  ["!", "case", "do", "done", "elif", "else", "esac", "fi", "for", "if", "in", "then", "until",
    "while", "\x7b", "\x7d"]

/-- Whether a token can only come after a list of commands. -/
def Token.endsList : Token → Bool
  | .finish => true
  | .symbol text => text == Bytes.ofString ")" || text == Bytes.ofString ";;"
  | .keyword name =>
    [Bytes.ofString "do", "done", "elif", "else", "esac", "fi", "then", "\x7d"].contains name
  | _ => false

def Token.resolve : Token → Token
  | .word parts =>
    match bareText? parts with
    | some text => if keywords.contains text then .keyword text else .word parts
    | none => .word parts
  | token => token

/-- The signs of redirections, the longer ones first. -/
def redirectionSigns : List Bytes := [">>", ">|", ">&", ">", "<<-", "<<", "<&", "<>", "<"]

/-- The symbols, the longer ones first. -/
def symbols : List Bytes := ["&&", "||", ";;", "&", "|", ";", "(", ")"]

def leading? (texts : List Bytes) (text : Bytes) : Option Bytes :=
  texts.find? fun candidate => candidate.isPrefixOf text

/-- What is left of a script: a token that was looked at, and the text after it. -/
structure Cursor where
  seen : Option Token := none
  text : ScriptText

abbrev Parser := StateT Cursor (Except (Nat × ScriptProblem))

namespace Parser

def fail {α : Type} (problem : ScriptProblem) : Parser α := fun cursor =>
  .error (cursor.text.line, problem)

def failAt {α : Type} (token : Token) (expected : Option Token) : Parser α :=
  fail (.unexpected token.description (expected.map Token.description))

def unread (token : Token) : Parser Unit := modify ({ · with seen := some token })

def line : Parser Nat := return (← get).text.line

/-- Skips blanks, comments and line ends that a backslash hides. -/
def skipBlanks : Nat → ScriptText → ScriptText
  | 0, text => text
  | fuel + 1, text =>
    match text.rest with
    | 32 :: _ | 9 :: _ => skipBlanks fuel (text.drop 1)
    | 92 :: 10 :: _ => skipBlanks fuel (text.drop 2)
    | 35 :: rest => text.drop (1 + (rest.takeWhile (· != Byte.newline)).length)
    | _ => text

/-- The lines of a text up to the one that is a mark, and with it how many bytes and how many lines
they are. The mark is a line even at the end of the text. -/
def linesBefore (mark : Bytes) (dropsTabs : Bool) : Nat → Bytes → Bytes × Nat × Nat
  | 0, _ => ([], 0, 0)
  | fuel + 1, text =>
    if text.isEmpty then ([], 0, 0)
    else
      let raw := text.takeWhile (· != Byte.newline)
      let after := text.drop raw.length
      let line := if dropsTabs then raw.dropWhile (· == 9) else raw
      let length := raw.length + (after.take 1).length
      if line == mark then ([], length, 1)
      else
        let (lines, rest, count) := linesBefore mark dropsTabs fuel (after.drop 1)
        (line ++ after.take 1 ++ lines, length + rest, (after.take 1).length + count)

def readAwaited (command : CommandReader) :
    List AwaitedDocument → ScriptText → Reading ScriptText
  | [], text => .ok { text with awaited := [] }
  | document :: later, text => do
    let (contents, length, count) :=
      linesBefore document.mark document.dropsTabs text.limit text.rest
    let (word, inner) ←
      if document.isLiteral then .ok ([Part.quoted contents], text)
      else readDocument command { text with rest := contents }
    let after := { text with
      documents := (document.number, word) :: inner.documents, nextDocument := inner.nextDocument }
    readAwaited command later { after.drop length with line := text.line + count }

def readToken (command : CommandReader) (text : ScriptText) : Reading (Token × ScriptText) := do
  let text := skipBlanks text.limit text
  match text.rest with
  | [] => return (.finish, text)
  | 10 :: _ =>
    let text := text.drop 1
    return (.newline, ← readAwaited command text.awaited.reverse text)
  | byte :: rest =>
    match leading? redirectionSigns text.rest with
    | some sign => return (.redirection none sign, text.drop sign.length)
    | none =>
      match leading? symbols text.rest, leading? redirectionSigns rest with
      | some symbol, _ => return (.symbol symbol, text.drop symbol.length)
      | none, some sign =>
        if Byte.isDigit byte then
          return (.redirection (some (byte.toNat - 48)) sign, text.drop (1 + sign.length))
        else
          let (word, text) ← readWord command text
          return (.word word, text)
      | none, none =>
        let (word, text) ← readWord command text
        return (.word word, text)

/-- Takes the next token as it reads without keywords. -/
def token (command : CommandReader) : Parser Token := fun cursor =>
  match cursor.seen with
  | some found => .ok (found, { cursor with seen := none })
  | none => do
    let (found, text) ← readToken command cursor.text
    return (found, { text })

def resolved (command : CommandReader) : Parser Token := return (← token command).resolve

/-- Takes the next token that is no line end, where keywords have their meaning. -/
def significant (command : CommandReader) : Nat → Parser Token
  | 0 => resolved command
  | fuel + 1 => do
    match ← resolved command with
    | .newline => significant command fuel
    | found => return found

def nextLine (command : CommandReader) : Parser Token := do
  significant command (← get).text.limit

/-- Takes a token that has to be there. -/
def expect (expected found : Token) : Parser Unit :=
  match expected, found with
  | .keyword name, .keyword other => if name == other then pure () else failAt found expected
  | .symbol text, .symbol other => if text == other then pure () else failAt found expected
  | _, _ => failAt found expected

/-- The name and the start of the value in an assignment. -/
def assignment? : Word → Option (Bytes × Word)
  | .text bytes :: rest =>
    let name := bytes.takeWhile isNameByte
    match bytes.drop name.length with
    | 61 :: value => if isName name then some (name, .text value :: rest) else none
    | _ => none
  | _ => none

def await (mark : Word) (dropsTabs : Bool) : Parser Nat := do
  let cursor ← get
  let number := cursor.text.nextDocument
  let text := fun (part : Part) => match part with
    | .text bytes | .quoted bytes => bytes
    | .parameter name _ _ => 36 :: name
    | _ => []
  let document : AwaitedDocument :=
    { number, mark := mark.flatMap text, isLiteral := isQuotedWord mark, dropsTabs }
  set { cursor with
    text := { cursor.text with
      nextDocument := number + 1, awaited := document :: cursor.text.awaited } }
  return number

def redirection (command : CommandReader) (channel : Option Nat) (sign : Bytes) :
    Parser Redirection := do
  match ← token command with
  | .word target =>
    let output := channel.getD 1
    let input := channel.getD 0
    if sign == Bytes.ofString "<<" || sign == Bytes.ofString "<<-" then
      return .document input (← await target (sign.length == 3))
    else if sign == Bytes.ofString ">&" then return .copy output target
    else if sign == Bytes.ofString "<&" then return .copy input target
    else if sign == Bytes.ofString ">>" then return .file output .append target
    else if sign == Bytes.ofString "<" then return .file input .read target
    else if sign == Bytes.ofString "<>" then return .file input .readWrite target
    else if sign == Bytes.ofString ">|" then return .file output .replace target
    else return .file output .write target
  | found => failAt found none

def redirections (command : CommandReader) : Nat → Parser (List Redirection)
  | 0 => return []
  | fuel + 1 => do
    match ← resolved command with
    | .redirection channel sign =>
      let first ← redirection command channel sign
      return first :: (← redirections command fuel)
    | found =>
      unread found
      return []

def words (command : CommandReader) : Nat → Parser (List Word)
  | 0 => return []
  | fuel + 1 => do
    match ← token command with
    | .word parts => return parts :: (← words command fuel)
    | found =>
      unread found
      return []

/-- The text of a pattern token: a word as it is, and nothing for another token. -/
def patternOf : Token → Word
  | .word parts => parts
  | .keyword name => [.text name]
  | _ => []

/-- Reads patterns with bars between them up to a closing parenthesis. -/
def patterns (command : CommandReader) : Nat → Token → Parser (List Word)
  | 0, _ => return []
  | fuel + 1, first => do
    match ← token command with
    | .symbol text =>
      if text == Bytes.ofString "|" then
        return patternOf first :: (← patterns command fuel (← token command))
      else if text == Bytes.ofString ")" then return [patternOf first]
      else failAt (.symbol text) (some (.symbol ")"))
    | found => failAt found (some (.symbol ")"))

/-- What a simple command consists of, the latest first. -/
structure SimpleParts where
  assignments : List (Bytes × Word) := []
  words : List Word := []
  redirections : List Redirection := []

def specialBuiltins : List Bytes :=
  [".", ":", "break", "continue", "eval", "exec", "exit", "export", "local", "readonly", "return",
    "set", "shift", "times", "trap", "unset"]

/-- The name of a function that is being defined, if the words can start a definition. -/
def SimpleParts.functionName? (parts : SimpleParts) : Option (Option Bytes) :=
  match parts.assignments, parts.words, parts.redirections with
  | [], [word], [] =>
    some ((bareText? word).filter fun name => isName name && !specialBuiltins.contains name)
  | _, _, _ => none

/-- Where a list of commands stands: on a line of its own, in another command, or in another
command that does not need it. -/
inductive ListPlace where
  | line
  | body
  | optionalBody
  deriving DecidableEq, Repr

def inSequence : Option Command → Command → Command
  | none, second => second
  | some first, second => .sequence first second

mutual

/-- Reads commands with semicolons or line ends between them, after those read so far. -/
def list (place : ListPlace) : Nat → Option Command → Parser Command
  | 0, sofar => return sofar.getD .nothing
  | fuel + 1, sofar => do
    let found ← if place = .line then resolved (reader fuel) else nextLine (reader fuel)
    match found with
    | .newline => return sofar.getD .nothing
    | .finish =>
      unread .finish
      return sofar.getD .nothing
    | found =>
      unread found
      if (place = .optionalBody || (place = .body && sofar.isSome)) && found.endsList then
        return sofar.getD .nothing
      let next ← andOr fuel
      match ← resolved (reader fuel) with
      | .finish =>
        unread .finish
        return inSequence sofar next
      | .newline =>
        unread .newline
        list place fuel (some (inSequence sofar next))
      | .symbol text =>
        if text == Bytes.ofString ";" then list place fuel (some (inSequence sofar next))
        else if text == Bytes.ofString "&" then
          list place fuel (some (inSequence sofar (.background next)))
        else if place = .line then failAt (.symbol text) none
        else
          unread (.symbol text)
          return inSequence sofar next
      | found =>
        if place = .line then failAt found none
        unread found
        return inSequence sofar next

/-- Reads pipelines of which each depends on how the one before went. -/
def andOr : Nat → Parser Command
  | 0 => return .nothing
  | fuel + 1 => do andOrAfter fuel (← pipeline fuel (← resolved (reader fuel)))

def andOrAfter : Nat → Command → Parser Command
  | 0, first => return first
  | fuel + 1, first => do
    let found ← token (reader fuel)
    if found.isSymbol "&&" then
      andOrAfter fuel (.both first (← pipeline fuel (← nextLine (reader fuel))))
    else if found.isSymbol "||" then
      andOrAfter fuel (.either first (← pipeline fuel (← nextLine (reader fuel))))
    else
      unread found
      return first

def pipeline : Nat → Token → Parser Command
  | 0, _ => return .nothing
  | fuel + 1, first => do
    let isInverted := first.isKeyword "!"
    let first ← command fuel (← if isInverted then resolved (reader fuel) else pure first)
    let rest ← stages fuel
    let body := if rest.isEmpty then first else .pipeline (first :: rest)
    return if isInverted then .inverted body else body

def stages : Nat → Parser (List Command)
  | 0 => return []
  | fuel + 1 => do
    let found ← token (reader fuel)
    if found.isSymbol "|" then
      let stage ← command fuel (← nextLine (reader fuel))
      return stage :: (← stages fuel)
    else
      unread found
      return []

def command : Nat → Token → Parser Command
  | 0, _ => return .nothing
  | fuel + 1, first => do
    let start ← line
    match first with
    | .word _ | .redirection _ _ =>
      unread first
      simple fuel (← line) {}
    | .symbol _ =>
      if first.isSymbol "(" then
        let body ← list .body fuel none
        expect (.symbol ")") (← resolved (reader fuel))
        ending fuel start (.separate body)
      else failAt first none
    | .keyword name =>
      if name == Bytes.ofString "if" then
        let body ← conditional fuel
        expect (.keyword "fi") (← resolved (reader fuel))
        ending fuel start body
      else if name == Bytes.ofString "while" || name == Bytes.ofString "until" then
        let condition ← list .body fuel none
        expect (.keyword "do") (← resolved (reader fuel))
        let body ← list .body fuel none
        expect (.keyword "done") (← resolved (reader fuel))
        ending fuel start (.loop (name == Bytes.ofString "until") condition body)
      else if name == Bytes.ofString "for" then ending fuel start (← each fuel start)
      else if name == Bytes.ofString "case" then
        match ← token (reader fuel) with
        | .word subject =>
          expect (.keyword "in") (← nextLine (reader fuel))
          ending fuel start (.select start subject (← arms fuel))
        | found => failAt found (some (.word []))
      else if name == Bytes.ofString "\x7b" then
        let body ← list .body fuel none
        expect (.keyword "\x7d") (← resolved (reader fuel))
        ending fuel start body
      else failAt first none
    | _ => failAt first none

/-- Reads the redirections of a command that does not consist of words. -/
def ending : Nat → Nat → Command → Parser Command
  | 0, _, body => return body
  | fuel + 1, start, body => do
    let found ← redirections (reader fuel) fuel
    return if found.isEmpty then body else .redirected start body found

def conditional : Nat → Parser Command
  | 0 => return .nothing
  | fuel + 1 => do
    let condition ← list .body fuel none
    expect (.keyword "then") (← resolved (reader fuel))
    let yes ← list .body fuel none
    let found ← resolved (reader fuel)
    if found.isKeyword "elif" then return .choice condition yes (← conditional fuel)
    else if found.isKeyword "else" then return .choice condition yes (← list .body fuel none)
    else
      unread found
      return .choice condition yes .nothing

def each : Nat → Nat → Parser Command
  | 0, _ => return .nothing
  | fuel + 1, start => do
    let name ← match ← token (reader fuel) with
      | .word parts =>
        match (bareText? parts).filter isName with
        | some name => pure name
        | none => fail .badLoopName
      | _ => fail .badLoopName
    let found ← nextLine (reader fuel)
    let values ← do
      if found.isKeyword "in" then
        let values ← words (reader fuel) fuel
        let found ← token (reader fuel)
        match found with
        | .newline => pure ()
        | _ => if found.isSymbol ";" then pure () else failAt found none
        pure values
      else
        unless found.isSymbol ";" do unread found
        pure [[.parameter "@" .plain true]]
    expect (.keyword "do") (← nextLine (reader fuel))
    let body ← list .body fuel none
    expect (.keyword "done") (← resolved (reader fuel))
    return .each start name values body

def arms : Nat → Parser (List (List Word × Command))
  | 0 => return []
  | fuel + 1 => do
    let found ← nextLine (reader fuel)
    if found.isKeyword "esac" then return []
    else
      let found ← if found.isSymbol "(" then token (reader fuel) else pure found
      let choices ← patterns (reader fuel) fuel found
      let body ← list .optionalBody fuel none
      let after ← nextLine (reader fuel)
      if after.isKeyword "esac" then return [(choices, body)]
      else
        expect (.symbol ";;") after
        return (choices, body) :: (← arms fuel)

/-- Reads the rest of a simple command, or a definition. -/
def simple : Nat → Nat → SimpleParts → Parser Command
  | 0, _, _ => return .nothing
  | fuel + 1, start, sofar => do
    match ← token (reader fuel) with
    | .word parts =>
      match (if sofar.words.isEmpty then assignment? parts else none) with
      | some found => simple fuel start { sofar with assignments := found :: sofar.assignments }
      | none => simple fuel start { sofar with words := parts :: sofar.words }
    | .redirection channel sign =>
      let found ← redirection (reader fuel) channel sign
      simple fuel start { sofar with redirections := found :: sofar.redirections }
    | found =>
      match (if found.isSymbol "(" then sofar.functionName? else none) with
      | some name? =>
        expect (.symbol ")") (← token (reader fuel))
        match name? with
        | none => fail .badFunctionName
        | some name => return .define name (← command fuel (← nextLine (reader fuel)))
      | none =>
        unread found
        return .simple start sofar.assignments.reverse sofar.words.reverse
          sofar.redirections.reverse

def reader : Nat → CommandReader
  | 0, _, text => .ok (.nothing, text)
  | fuel + 1, isEnclosed, text => do
    let action : Parser Command := do
      let body ← list .optionalBody fuel none
      if isEnclosed then expect (.symbol ")") (← resolved (reader fuel))
      return body
    let (body, cursor) ← action { text := { text with awaited := [] } }
    return (body, { cursor.text with awaited := text.awaited })

end

def fuelFor (text : ScriptText) : Nat := 16 * (text.limit + 1)

end Parser

/-- Reads a complete command from the front of a script, if there is one. -/
def readCommand (text : ScriptText) : Reading (Option (Command × ScriptText)) := do
  let fuel := Parser.fuelFor text
  let (found, cursor) ← Parser.token (Parser.reader fuel) { text }
  match found with
  | .finish => return none
  | _ =>
    let (body, cursor) ← Parser.list .line fuel none { cursor with seen := some found }
    return some (body, cursor.text)

end KnightLang.Shell
