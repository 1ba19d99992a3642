import KnightLang.Text.Integer
import KnightLang.World

/-!
Log output: which records are written, and how a line looks.
-/

namespace KnightLang

/-- How log records are written: from which severity on, and with which time stamp. An empty format
leaves the time out. -/
structure LogFormat where
  threshold : Int
  timeFormat : Bytes
  deriving DecidableEq, Repr

namespace LogFormat

/-- Whether a value has to be quoted to be told from what stands around it. -/
def needsQuotes (value : Bytes) : Bool :=
  value.isEmpty || (Utf8.pieces value).any fun
    | .stray _ => true
    | .scalar point _ =>
      if point < 0x80 then point < 0x21 || point == 34 || point == 61
      else point == Utf8.replacement || !Unicode.isPrintable point

def value (value : Bytes) : Bytes := if needsQuotes value then Quoted.text value else value

def field (name contents : Bytes) : Bytes := name ++ [61] ++ value contents

/-- The text of a time format without the time: two percent signs stand for one, and the letters
`n` and `t` after one for a line end and a tab. -/
def stamp : Bytes → Bytes
  | 37 :: 37 :: rest => 37 :: stamp rest
  | 37 :: 110 :: rest => 10 :: stamp rest
  | 37 :: 116 :: rest => 9 :: stamp rest
  | byte :: rest => byte :: stamp rest
  | [] => []

def line (format : LogFormat) (record : LogRecord) : Bytes :=
  let time := if format.timeFormat.isEmpty then [] else [field "time" (stamp format.timeFormat)]
  let fixed := [field "level" record.level.name, field "msg" record.message]
  let rest := record.fields.map fun entry => field entry.1 entry.2
  Bytes.joinWith [32] (time ++ fixed ++ rest) ++ [10]

def notice (format : LogFormat) : Notice → Bytes
  | .text bytes => bytes
  | .log record => if format.threshold ≤ record.level.severity then format.line record else []

/-- What notices, the latest first, put on the standard error. -/
def notices (format : LogFormat) (notices : List Notice) : Bytes :=
  notices.reverse.flatMap format.notice

end LogFormat

/-- The upper-case form of a code point, where it is an ASCII letter. -/
def Level.upperPoint (point : Nat) : Nat :=
  if 97 ≤ point && point ≤ 122 then point - 32 else if point = 0x131 then 73 else point

def Level.upper (name : Bytes) : Bytes :=
  (Utf8.pieces name).flatMap fun piece => Utf8.encode (Level.upperPoint piece.point)

/-- A text without the white space around it. -/
def Bytes.trim (text : Bytes) : Bytes :=
  let isBlank := fun (piece : Utf8.Piece) => Unicode.isSpace piece.point
  let pieces := (Utf8.pieces text).dropWhile isBlank
  (pieces.reverse.dropWhile isBlank).reverse.flatMap Utf8.Piece.written

/-- The severity that a text names: a level in any case, and an offset to it. Severities are words
of 64 bits. -/
def Level.parse (text : Bytes) : Except Bytes Int :=
  let isSign := fun (byte : UInt8) => byte == 43 || byte == 45
  let name := text.takeWhile fun byte => !isSign byte
  let offset := text.dropWhile fun byte => !isSign byte
  let failure := fun (problem : Bytes) =>
    Bytes.ofString "slog: level string " ++ Quoted.text text ++ ": " ++ problem
  match if offset.isEmpty then .ok 0 else Integer.signed false offset with
  | .error problem =>
    .error (failure
      ("strconv.Atoi: parsing " ++ Quoted.text offset ++ ": " ++ problem.message))
  | .ok offset =>
    match [Level.debug, .info, .warn, .error].find? fun level => level.name == Level.upper name with
    | some level => .ok (Int64.ofInt (level.severity + offset)).toInt
    | none => .error (failure "unknown name")

end KnightLang
