import KnightLang.Shell.Command

/-!
How the words of shell scripts are read. Single quotes keep everything, double quotes keep
everything but what a dollar sign or a backquote asks to fill in, and a backslash keeps the byte
after it.
-/

namespace KnightLang.Shell

/-- What is wrong with the form of a script. -/
inductive ScriptProblem where
  | openQuote
  | openBrace
  | openArithmetic
  | openBackquote
  | badLoopName
  | badFunctionName
  | badChannel
  | unexpected (symbol : Bytes) (expected : Option Bytes)
  deriving DecidableEq, Repr

def ScriptProblem.message : ScriptProblem → Bytes
  | .openQuote => "Unterminated quoted string"
  | .openBrace => "Missing '\x7d'"
  | .openArithmetic => "Missing '))'"
  | .openBackquote => "EOF in backquote substitution"
  | .badLoopName => "Bad for loop variable"
  | .badFunctionName => "Bad function name"
  | .badChannel => "Bad fd number"
  | .unexpected symbol none => symbol ++ " unexpected"
  | .unexpected symbol (some expected) => symbol ++ " unexpected (expecting " ++ expected ++ ")"

/-- A document that was announced and starts after the line. -/
structure AwaitedDocument where
  number : Nat
  /-- The line that ends it. -/
  mark : Bytes
  isLiteral : Bool
  /-- Whether tabs at the front of its lines are left out. -/
  dropsTabs : Bool
  deriving DecidableEq, Repr

/-- The unread text of a script, and the number of its line. -/
structure ScriptText where
  rest : Bytes
  line : Nat := 1
  /-- A bound on the steps of readers that take at least a byte each. -/
  limit : Nat
  /-- The number of the next document. -/
  nextDocument : Nat := 0
  awaited : List AwaitedDocument := []
  documents : List (Nat × Word) := []

def ScriptText.whole (script : Bytes) : ScriptText := { rest := script, limit := script.length + 1 }

/-- A result, or the problem in the way of it and the line where it shows. -/
abbrev Reading (α : Type) := Except (Nat × ScriptProblem) α

def ScriptText.drop (text : ScriptText) (count : Nat) : ScriptText :=
  { text with
    rest := text.rest.drop count
    line := text.line + (text.rest.take count).count Byte.newline }

def isNameStart (byte : UInt8) : Bool := Byte.isLower (Byte.toLower byte) || byte == 95

def isNameByte (byte : UInt8) : Bool := isNameStart byte || Byte.isDigit byte

def isName : Bytes → Bool
  | [] => false
  | first :: rest => isNameStart first && rest.all isNameByte

/-- The bytes that are parameters of their own: `?`, `#`, `@`, `*`, `$`, `!` and `-`. -/
def isSpecialParameter (byte : UInt8) : Bool := [63, 35, 64, 42, 36, 33, 45].contains byte

/-- The name of a parameter at the front of a text: a name, a digit, or a byte of its own. Digits
belong together only between braces. -/
def parameterName (inBraces : Bool) (text : Bytes) : Bytes :=
  match text with
  | [] => []
  | first :: _ =>
    if isNameStart first then text.takeWhile isNameByte
    else if Byte.isDigit first then if inBraces then text.takeWhile Byte.isDigit else [first]
    else if isSpecialParameter first then [first]
    else []

/-- What surrounds the part of a word that is being read. -/
inductive Surrounding where
  | nothing
  | quotes
  | braces (inQuotes : Bool)
  | arithmetic (depth : Nat)
  | document
  deriving DecidableEq, Repr

namespace Surrounding

def isQuoting : Surrounding → Bool
  | .nothing => false
  | .braces inQuotes => inQuotes
  | _ => true

def isEndedBy (surrounding : Surrounding) (byte : UInt8) : Bool :=
  match surrounding with
  | .nothing => [32, 9, 10, 38, 124, 59, 40, 41, 60, 62].contains byte
  | .quotes => byte == 34
  | .braces _ => byte == 125
  | .arithmetic _ => false
  | .document => false

def isEscapable (surrounding : Surrounding) (byte : UInt8) : Bool :=
  match surrounding with
  | .nothing => true
  | .braces false => true
  | .braces true => [36, 96, 92, 34, 125].contains byte
  | .quotes => [36, 96, 92, 34].contains byte
  | _ => [36, 96, 92].contains byte

def problem? : Surrounding → Option ScriptProblem
  | .nothing => none
  | .quotes | .braces true => some .openQuote
  | .braces false => some .openBrace
  | .arithmetic _ => some .openArithmetic
  | .document => none

end Surrounding

/-- Adds a byte of text in front of parts that are given the latest first. -/
def pushByte (isQuoted : Bool) (byte : UInt8) : List Part → List Part
  | .quoted bytes :: parts =>
    if isQuoted then .quoted (byte :: bytes) :: parts else .text [byte] :: .quoted bytes :: parts
  | .text bytes :: parts =>
    if isQuoted then .quoted [byte] :: .text bytes :: parts else .text (byte :: bytes) :: parts
  | parts => if isQuoted then .quoted [byte] :: parts else .text [byte] :: parts

/-- Parts in order, from parts whose text is given the latest first. -/
def finishParts (parts : List Part) : List Part :=
  parts.reverse.map fun
    | .text bytes => .text bytes.reverse
    | .quoted bytes => .quoted bytes.reverse
    | part => part

/-- The script between backquotes, after the first of them, and its length with the second one. A
backslash keeps a dollar sign, a backquote, a backslash and, in quotes, a quote. -/
def backquoted (inQuotes : Bool) : Bytes → Option (Bytes × Nat)
  | [] => none
  | 92 :: byte :: rest =>
    let isEscape := [36, 96, 92].contains byte || (inQuotes && byte == 34)
    (backquoted inQuotes rest).map fun (script, length) =>
      (if isEscape then byte :: script else 92 :: byte :: script, length + 2)
  | byte :: rest =>
    if byte == 96 then some ([], 1)
    else (backquoted inQuotes rest).map fun (script, length) => (byte :: script, length + 1)

/-- Reads the command of a text: up to a closing parenthesis, which belongs to it, or to the end. -/
abbrev CommandReader := Bool → ScriptText → Reading (Command × ScriptText)

/-- The place of a sign among those that ask for another word. -/
def alternative? (sign : UInt8) : Option Alternative :=
  match sign with
  | 45 => some .default
  | 61 => some .assign
  | 63 => some .complain
  | 43 => some .instead
  | _ => none

/-- Whether a number sign after an opening brace asks for the length of what follows it. -/
def asksLength : Bytes → Bool
  | 35 :: next :: rest => isNameByte next || (isSpecialParameter next && rest.head? == some 125)
  | _ => false

/-- The length of all arguments and a closing quote at the front of a text. Quotes around nothing
else do not make a word by themselves. -/
def quotedArguments? (text : Bytes) : Option Nat :=
  (["$@\"", "$\x7b@\x7d\""].map Bytes.ofString).findSome? fun form =>
    if form.isPrefixOf text then some form.length else none

mutual

/-- Reads parts up to the end of what surrounds them, in front of parts that are given the latest
first. The fuel bounds the steps of all these readers. -/
def readParts (command : CommandReader) (surrounding : Surrounding) :
    Nat → List Part → ScriptText → Reading (List Part × ScriptText)
  | 0, parts, text => .ok (parts, text)
  | fuel + 1, parts, text =>
    let isQuoted := surrounding.isQuoting
    match text.rest with
    | [] =>
      match surrounding.problem? with
      | some problem => .error (text.line, problem)
      | none => .ok (parts, text)
    | byte :: rest =>
      let plain := fun (_ : Unit) =>
        readParts command surrounding fuel (pushByte isQuoted byte parts) (text.drop 1)
      if surrounding.isEndedBy byte then .ok (parts, text)
      else if byte == 92 then
        match rest with
        | [] => readParts command surrounding fuel (pushByte true byte parts) (text.drop 1)
        | next :: _ =>
          if next == 10 then readParts command surrounding fuel parts (text.drop 2)
          else if surrounding.isEscapable next then
            readParts command surrounding fuel (pushByte true next parts) (text.drop 2)
          else
            readParts command surrounding fuel (pushByte true next (pushByte true byte parts))
              (text.drop 2)
      else if byte == 39 && !isQuoted then
        let quoted := rest.takeWhile (· != 39)
        match rest.drop quoted.length with
        | [] => .error ((text.drop (quoted.length + 1)).line, .openQuote)
        | _ =>
          readParts command surrounding fuel (.quoted quoted.reverse :: parts)
            (text.drop (quoted.length + 2))
      else if byte == 34 && (surrounding = .nothing || surrounding matches .braces _) then
        match quotedArguments? rest with
        | some length =>
          readParts command surrounding fuel (.parameter [64] .plain true :: parts)
            (text.drop (length + 1))
        | none => do
          let (inner, after) ← readParts command .quotes fuel (.quoted [] :: parts) (text.drop 1)
          readParts command surrounding fuel inner (after.drop 1)
      else if byte == 36 then do
        let (found, after) ← readDollar command isQuoted fuel (text.drop 1)
        match found with
        | some part => readParts command surrounding fuel (part :: parts) after
        | none => plain ()
      else if byte == 96 then
        match backquoted isQuoted rest with
        | none => .error ((text.drop (rest.length + 1)).line, .openBackquote)
        | some (script, length) => do
          let (body, inner) ← command false { text with rest := script, line := 1 }
          let after := { inner with rest := text.rest, line := text.line }
          readParts command surrounding fuel (.output body isQuoted :: parts)
            (after.drop (length + 1))
      else
        match surrounding with
        | .arithmetic depth =>
          if byte == 40 then
            readParts command (.arithmetic (depth + 1)) fuel (pushByte true byte parts)
              (text.drop 1)
          else if byte == 41 then
            match depth, rest with
            | 0, 41 :: _ => .ok (parts, text)
            | depth, _ =>
              readParts command (.arithmetic (depth - 1)) fuel (pushByte true byte parts)
                (text.drop 1)
          else plain ()
        | _ => plain ()

/-- Reads what follows a dollar sign; without a part, the sign stands for itself. -/
def readDollar (command : CommandReader) (inQuotes : Bool) :
    Nat → ScriptText → Reading (Option Part × ScriptText)
  | 0, text => .ok (none, text)
  | fuel + 1, text =>
    match text.rest with
    | 40 :: 40 :: _ => do
      let (parts, after) ← readParts command (.arithmetic 0) fuel [] (text.drop 2)
      return (some (.arithmetic (finishParts parts) inQuotes), after.drop 2)
    | 40 :: _ => do
      let (body, after) ← command true (text.drop 1)
      return (some (.output body inQuotes), after)
    | 123 :: _ => do
      let (part, after) ← readBraced command inQuotes fuel (text.drop 1)
      return (some part, after)
    | rest =>
      let name := parameterName false rest
      if name.isEmpty then .ok (none, text)
      else .ok (some (.parameter name .plain inQuotes), text.drop name.length)

/-- Reads a parameter after an opening brace, and the closing one. -/
def readBraced (command : CommandReader) (inQuotes : Bool) :
    Nat → ScriptText → Reading (Part × ScriptText)
  | 0, text => .error (text.line, .openBrace)
  | fuel + 1, text =>
    let isLength := asksLength text.rest
    let text := if isLength then text.drop 1 else text
    let name := parameterName true text.rest
    let after := text.drop name.length
    let reading := fun (inner : ScriptText) (quotes : Bool) (form : List Part → Form) => do
      let (word, after) ← readParts command (.braces quotes) fuel [] inner
      let form := if name.isEmpty || isLength then .malformed else form (finishParts word)
      return (Part.parameter name form inQuotes, after.drop 1)
    match after.rest with
    | [] => .error (after.line, if inQuotes then .openQuote else .openBrace)
    | 125 :: _ =>
      let form := if name.isEmpty then .malformed else if isLength then .length else .plain
      .ok (.parameter name form inQuotes, after.drop 1)
    | 58 :: sign :: _ =>
      match alternative? sign with
      | some kind => reading (after.drop 2) inQuotes (.alternative true kind)
      | none =>
        if sign == 125 then reading (after.drop 2) inQuotes fun _ => .plain
        else if sign == Byte.newline then
          reading { after.drop 2 with line := after.line } inQuotes fun _ => .malformed
        else reading (after.drop 1) inQuotes fun _ => .malformed
    | 37 :: 37 :: _ => reading (after.drop 2) false (.trimmed true true)
    | 37 :: _ => reading (after.drop 1) false (.trimmed true false)
    | 35 :: 35 :: _ => reading (after.drop 2) false (.trimmed false true)
    | 35 :: _ => reading (after.drop 1) false (.trimmed false false)
    | sign :: _ =>
      match alternative? sign with
      | some kind => reading (after.drop 1) inQuotes (.alternative false kind)
      | none => reading { after.drop 1 with line := after.line } inQuotes fun _ => .malformed

end

def readWord (command : CommandReader) (text : ScriptText) : Reading (Word × ScriptText) := do
  let (parts, after) ← readParts command .nothing text.limit [] text
  return (finishParts parts, after)

/-- Reads the parts of a document, which are the whole text. -/
def readDocument (command : CommandReader) (text : ScriptText) : Reading (Word × ScriptText) := do
  let (parts, after) ← readParts command .document text.limit [] text
  return (finishParts parts, after)

end KnightLang.Shell
