import KnightLang.Value
import KnightLang.Text.Quoted

/-!
Failures of parsing and evaluation. An error is a chain of links, outermost first: reasons of the
language, each with the place it points at, and below them the causes reported by collaborators.
-/

namespace KnightLang

/-- The classes of failure. Codes outside the list are kept as numbers. -/
inductive ErrorKind where
  | noError
  | parse
  | unassignedVariable
  | type
  | divisionByZero
  | moduloByZero
  | index
  | external
  | quit
  | depth
  | overflow
  | other (code : Int)
  deriving DecidableEq, Repr

namespace ErrorKind

def all : List ErrorKind :=
  [.noError, .parse, .unassignedVariable, .type, .divisionByZero, .moduloByZero, .index, .external,
    .quit, .depth, .overflow]

def name : ErrorKind → Bytes
  | .noError => "no error"
  | .parse => "parse error"
  | .unassignedVariable => "unassigned variable"
  | .type => "type error"
  | .divisionByZero => "division by zero"
  | .moduloByZero => "modulo by zero"
  | .index => "index error"
  | .external => "external failure"
  | .quit => "quit"
  | .depth => "depth exceeded"
  | .overflow => "overflow"
  | .other code => "ErrorKind(" ++ Bytes.ofInt code ++ ")"

def ofCode (code : Int) : ErrorKind :=
  if code < 0 then .other code else all.getD code.toNat (.other code)

end ErrorKind

/-- Why an operation of the language failed. -/
inductive Reason where
  | noExpression
  | unterminatedString
  | literalOutOfRange
  | unknownToken (byte : UInt8)
  | unknownFunction (byte : UInt8)
  | missingArgument (index : Nat) (function : Bytes)
  | expressionDepth (limit : Int)
  | readingSource (label : Bytes)
  | unassigned (name : Bytes)
  | kindMismatch (expected actual : Kind)
  | notComparable (kind : Kind)
  | notAssignable (name : Bytes)
  | notAName (name : Bytes)
  | dividedByZero (dividend : Int64)
  | reducedByZero (dividend : Int64)
  | overflow (operator : Bytes) (left right : Int64)
  | negationOverflow (operand : Int64)
  | textTooLong (length : Nat)
  | repetitionTooLong (length : Nat) (count : Int64)
  | negativeCount (count : Int64)
  | negativeSubstring (start length : Int64)
  | negativeSubstitution (start length : Int64)
  | startPastEnd (start : Int64) (length : Nat)
  | flushingOutput
  | writingOutput
  | readingLine
  | runningCommand (command : Bytes)
  | quit (status : Int64)
  | evaluationDepth (limit : Int)
  | custom (kind : ErrorKind) (message : Bytes) (code : Int)
  deriving DecidableEq, Repr

namespace Reason

def kind : Reason → ErrorKind
  | .noExpression | .unterminatedString | .literalOutOfRange | .unknownToken _
  | .unknownFunction _ | .missingArgument .. => .parse
  | .expressionDepth _ | .evaluationDepth _ => .depth
  | .readingSource _ | .flushingOutput | .writingOutput | .readingLine | .runningCommand _ =>
    .external
  | .unassigned _ => .unassignedVariable
  | .kindMismatch .. | .notComparable _ | .notAssignable _ | .notAName _ => .type
  | .dividedByZero _ => .divisionByZero
  | .reducedByZero _ => .moduloByZero
  | .overflow .. | .negationOverflow _ => .overflow
  | .textTooLong _ | .repetitionTooLong .. | .negativeCount _ | .negativeSubstring ..
  | .negativeSubstitution .. | .startPastEnd .. => .index
  | .quit _ => .quit
  | .custom kind _ _ => kind

/-- The exit status a reason carries; zero except for QUIT. -/
def code : Reason → Int
  | .quit status => status.toInt
  | .custom _ _ code => code
  | _ => 0

def bounds (start length : Int64) : Bytes :=
  "(" ++ Bytes.ofInt64 start ++ ", " ++ Bytes.ofInt64 length ++ ")"

def message : Reason → Bytes
  | .noExpression => "no expression to evaluate"
  | .unterminatedString => "unterminated string"
  | .literalOutOfRange => "integer literal out of range"
  | .unknownToken byte => "unknown token " ++ Quoted.byte byte
  | .unknownFunction byte => "unknown function " ++ Quoted.byte byte
  | .missingArgument index function =>
    "missing argument " ++ Bytes.ofNat index ++ " to " ++ function
  | .expressionDepth limit => "expression nested deeper than " ++ Bytes.ofInt limit
  | .readingSource label => "reading " ++ label
  | .unassigned name => "unassigned variable " ++ name
  | .kindMismatch expected actual => "expected " ++ expected.name ++ ", not " ++ actual.name
  | .notComparable kind => "cannot compare " ++ kind.name
  | .notAssignable name => "cannot assign to " ++ Quoted.text name
  | .notAName name => "VALUE of invalid identifier " ++ Quoted.text name
  | .dividedByZero dividend => "attempted to divide " ++ Bytes.ofInt64 dividend ++ " by zero"
  | .reducedByZero dividend => "attempted to modulo " ++ Bytes.ofInt64 dividend ++ " by zero"
  | .overflow operator left right =>
    Bytes.ofInt64 left ++ " " ++ operator ++ " " ++ Bytes.ofInt64 right ++ " overflows"
  | .negationOverflow operand => "~ " ++ Bytes.ofInt64 operand ++ " overflows"
  | .textTooLong length => "string of length " ++ Bytes.ofNat length ++ " exceeds limit"
  | .repetitionTooLong length count =>
    "repetition of length " ++ Bytes.ofNat length ++ " by " ++ Bytes.ofInt64 count
      ++ " exceeds limit"
  | .negativeCount count => "negative repetition count " ++ Bytes.ofInt64 count
  | .negativeSubstring start length => "negative substring bounds " ++ bounds start length
  | .negativeSubstitution start length => "negative substitution bounds " ++ bounds start length
  | .startPastEnd start length =>
    "index " ++ Bytes.ofInt64 start ++ " out of bounds (length " ++ Bytes.ofNat length ++ ")"
  | .flushingOutput => "flushing output"
  | .writingOutput => "writing output"
  | .readingLine => "reading line"
  | .runningCommand command => "running " ++ Quoted.text command
  | .quit status => "quit with status " ++ Bytes.ofInt64 status
  | .evaluationDepth limit => "evaluation nested deeper than " ++ Bytes.ofInt limit
  | .custom kind message _ => if message.isEmpty then kind.name else message

end Reason

/-- Where an error points: the label of a source, and a one-based position or zeros. -/
structure Place where
  label : Bytes := []
  line : Int := 0
  column : Int := 0
  deriving DecidableEq, Repr

/-- One link of an error's chain. -/
inductive Link where
  | raised (reason : Reason) (place : Place)
  | endOfInput
  | unexpectedEnd
  | plain (text : Bytes)
  deriving DecidableEq, Repr

namespace Link

def description : Link → Bytes
  | .raised reason _ => reason.message
  | .endOfInput => "EOF"
  | .unexpectedEnd => "unexpected EOF"
  | .plain text => text

/-- A message with the position it points at in front, if there is one. -/
def located (link : Link) (message : Bytes) : Bytes :=
  match link with
  | .raised _ place =>
    if 0 < place.line then
      place.label ++ ":" ++ Bytes.ofInt place.line ++ ":" ++ Bytes.ofInt place.column ++ ": "
        ++ message
    else message
  | _ => message

/-- The reason of a link, if it is one of the language. -/
def reason? : Link → Option Reason
  | .raised reason _ => some reason
  | _ => none

end Link

/-- A failure, outermost link first. -/
structure Error where
  outer : Link
  causes : List Link := []
  deriving DecidableEq, Repr

namespace Error

/-- A failure of the language without a position. -/
def raise (reason : Reason) : Error := { outer := .raised reason {} }

/-- A failure of the language without a position, with what caused it. -/
def because (reason : Reason) (cause : Error) : Error :=
  { outer := .raised reason {}, causes := cause.outer :: cause.causes }

def endOfInput : Error := { outer := .endOfInput }

def plain (text : Bytes) : Error := { outer := .plain text }

def within (error : Error) (remark : Bytes) : Error :=
  { outer := .plain remark, causes := error.outer :: error.causes }

def links (error : Error) : List Link := error.outer :: error.causes

/-- The text of a chain: each link, then a colon and what lies below it. -/
def chainText : List Link → Bytes
  | [] => []
  | [link] => link.located link.description
  | link :: causes => link.located (link.description ++ ": " ++ chainText causes)

def text (error : Error) : Bytes := chainText error.links

def reason? (error : Error) : Option Reason := error.links.findSome? Link.reason?

/-- The kind of a failure, or no error if it is none of the language. -/
def kind (error : Error) : ErrorKind := (error.reason?.map Reason.kind).getD .noError

/-- The exit status that a failure asks for, if it comes from QUIT. -/
def quitCode? (error : Error) : Option Int :=
  error.reason?.bind fun reason => if reason.kind = .quit then some reason.code else none

def isKind (error : Error) (kind : ErrorKind) : Bool :=
  error.links.any fun link => (link.reason?.map Reason.kind) == some kind

/-- Whether the chain holds an end of input inside an expression. -/
def isIncomplete (error : Error) : Bool := error.links.contains .unexpectedEnd

def isEnd (error : Error) : Bool := error.links.contains .endOfInput

end Error

end KnightLang
