import KnightLang.Decimal
import KnightLang.Error
import KnightLang.Source
import KnightLang.Tree

/-!
Parsing. One expression is read from the front of a source, and what follows it is left unread.
Separators and comments stand between tokens; every token is as long as it can be.
-/

namespace KnightLang

/-- What a parse depends on beside the bytes. -/
structure Grammar where
  label : Bytes
  functions : FunctionTable
  limit : Int
  failure : Option Bytes := none

/-- The state of a parse: the unread bytes, the position of the first of them, and the variables
met so far, the latest first. -/
structure Scanner where
  unread : Bytes
  position : Position := {}
  names : List Bytes := []
  deriving DecidableEq, Repr

abbrev Scan := EStateM Error Scanner

namespace Scan

def skipBlank : Bool → Position → Bytes → Position × Bytes
  | _, position, [] => (position, [])
  | comment, position, byte :: rest =>
    if comment then skipBlank (byte != Byte.newline) (position.next byte) rest
    else if Byte.isSeparator byte then skipBlank false (position.next byte) rest
    else if byte == 35 then skipBlank true (position.next byte) rest
    else (position, byte :: rest)

/-- Reads digits into a word as long as it has room for them, and stops at the first digit that
would take it past its range. The room is compared before the digit is added, so that no word
overflows. -/
def literalDigits : Int64 → Position → Bytes → Int64 × Position × Bytes
  | total, position, [] => (total, position, [])
  | total, position, byte :: rest =>
    let digit := Int64.ofNat (Decimal.digit byte)
    if Byte.isDigit byte && total ≤ (Int64.maxValue - digit) / 10 then
      literalDigits (total * 10 + digit) (position.next byte) rest
    else (total, position, byte :: rest)

def errorAt (grammar : Grammar) (position : Position) (reason : Reason) (causes : List Link) :
    Error :=
  { outer := .raised reason
      { label := grammar.label, line := position.line, column := position.column }
    causes }

/-- The failure at the end of the bytes: the source's own, or the mark of its end. -/
def atEnd (grammar : Grammar) : Error :=
  match grammar.failure with
  | none => .endOfInput
  | some text => .because (.readingSource grammar.label) (.plain text)

/-- Consumes the longest run of bytes that pass a test. -/
def takeRun (test : UInt8 → Bool) : Scan Bytes := fun scanner =>
  let run := scanner.unread.takeWhile test
  .ok run
    { scanner with
      unread := scanner.unread.dropWhile test, position := scanner.position.after run }

/-- Fails if a token reached the end of a source that fails there. -/
def checkEnd (grammar : Grammar) : Scan PUnit := fun scanner =>
  if scanner.unread.isEmpty && grammar.failure.isSome then .error (atEnd grammar) scanner
  else .ok ⟨⟩ scanner

def advance : Scan PUnit := fun scanner =>
  match scanner.unread with
  | [] => .ok ⟨⟩ scanner
  | byte :: rest => .ok ⟨⟩ { scanner with unread := rest, position := scanner.position.next byte }

/-- Moves to the next token and gives its first byte, unread. -/
def peekToken (grammar : Grammar) : Scan UInt8 := fun scanner =>
  let (position, unread) := skipBlank false scanner.position scanner.unread
  match unread with
  | [] => .error (atEnd grammar) { scanner with unread := [], position }
  | byte :: rest => .ok byte { scanner with unread := byte :: rest, position }

def number (grammar : Grammar) : Scan Tree := fun scanner =>
  let (total, position, rest) := literalDigits 0 scanner.position scanner.unread
  let moved := { scanner with unread := rest, position }
  match rest with
  | [] => if grammar.failure.isSome then .error (atEnd grammar) moved
    else .ok (.number total) moved
  | byte :: _ =>
    if Byte.isDigit byte then
      .error (errorAt grammar scanner.position .literalOutOfRange []) moved
    else .ok (.number total) moved

/-- A variable, whose name is noted. -/
def identifier (grammar : Grammar) : Scan Tree := do
  let name ← takeRun Byte.isNameByte
  checkEnd grammar
  modify fun scanner => { scanner with names := name :: scanner.names }
  return .variable name

def quoted (grammar : Grammar) (quote : UInt8) : Scan Tree := do
  let start := (← get).position
  advance
  let contents ← takeRun (· != quote)
  if (← get).unread.isEmpty then
    let cause := match grammar.failure with
      | none => .unexpectedEnd
      | some text => .plain text
    throw (errorAt grammar start .unterminatedString [cause])
  advance
  return .text contents

/-- A token that begins with another byte: a literal word, or a function to be applied. -/
inductive Head where
  | literal (tree : Tree)
  | function (function : Function)

def head (grammar : Grammar) (byte : UInt8) : Scan Head := do
  let start := (← get).position
  if Byte.isUpper byte then
    advance
    let _ ← takeRun Byte.isWordByte
    checkEnd grammar
    if byte == 84 then return .literal (.boolean true)
    else if byte == 70 then return .literal (.boolean false)
    else if byte == 78 then return .literal .null
    else
      match grammar.functions.find? byte with
      | none => throw (errorAt grammar start (.unknownFunction byte) [])
      | some function => return .function function
  else
    match grammar.functions.find? byte with
    | none => throw (errorAt grammar start (.unknownToken byte) [])
    | some function =>
      advance
      return .function function

/-- Reads arguments from the given index on. Running out of input inside one names the first that
is missing. -/
def arguments (grammar : Grammar) (expression : Scan Tree) (function : Function)
    (start : Position) : Nat → Nat → Scan (List Tree)
  | _, 0 => return []
  | index, count + 1 => fun scanner =>
    match expression scanner with
    | .error error scanner =>
      if error = .endOfInput then
        .error (errorAt grammar start (.missingArgument index function.long) [.unexpectedEnd])
          scanner
      else .error error scanner
    | .ok first scanner =>
      match arguments grammar expression function start (index + 1) count scanner with
      | .error error scanner => .error error scanner
      | .ok rest scanner => .ok (first :: rest) scanner

/-- One expression with at most `budget` applications inside each other. -/
def expression (grammar : Grammar) (budget : Nat) : Scan Tree := do
  let byte ← peekToken grammar
  let start := (← get).position
  if Byte.isDigit byte then number grammar
  else if Byte.isNameStart byte then identifier grammar
  else if byte == 34 || byte == 39 then quoted grammar byte
  else
    match ← head grammar byte with
    | .literal tree => return tree
    | .function function =>
      match budget with
      | 0 => throw (errorAt grammar start (.expressionDepth grammar.limit) [])
      | budget + 1 =>
        return .apply function
          (← arguments grammar (expression grammar budget) function start 1 function.arity)

end Scan

def Grammar.parse (grammar : Grammar) (bytes : Bytes) : EStateM.Result Error Scanner Tree :=
  Scan.expression grammar grammar.limit.toNat { unread := bytes }

end KnightLang
