import KnightLang.Bytes

/-!
Sources of bytes. A source holds the bytes that are still unread, and ends or fails after them.
-/

namespace KnightLang

/-- Unread bytes, and the text of the failure that follows them, if one does. -/
structure Source where
  unread : Bytes
  failure : Option Bytes := none
  deriving DecidableEq, Repr

/-- What reading a line gives. -/
inductive LineResult where
  | line (bytes : Bytes)
  | done
  | failed (text : Bytes)
  deriving DecidableEq, Repr

namespace Source

/-- Takes the bytes up to and including the next newline, or all of them if there is none. Bytes
that run into a failure are lost to it. -/
def readLine (source : Source) : LineResult × Source :=
  match source.unread.dropWhile (· != Byte.newline) with
  | newline :: rest =>
    let line := source.unread.takeWhile (· != Byte.newline) ++ [newline]
    (.line line, { source with unread := rest })
  | [] =>
    match source.failure with
    | some text => (.failed text, { source with unread := [] })
    | none =>
      if source.unread.isEmpty then (.done, source)
      else (.line source.unread, { source with unread := [] })

end Source

/-- A console: the bytes that will be typed. -/
structure Console where
  typed : Bytes
  deriving DecidableEq, Repr

namespace Console

/-- The longest piece of a line that is read at once. -/
def lineLimit : Nat := 4096

/-- Takes the next line without its end, which is a newline with at most one carriage return in
front of it. A longer line than the limit is read in pieces, and a carriage return at the end of a
piece goes to the next one. -/
def readLine (console : Console) : LineResult × Console :=
  let window := console.typed.take lineLimit
  match window.dropWhile (· != Byte.newline) with
  | _ :: _ =>
    let line := window.takeWhile (· != Byte.newline)
    let rest := console.typed.drop (line.length + 1)
    let line := if line.getLast? == some Byte.carriageReturn then line.dropLast else line
    (.line line, { typed := rest })
  | [] =>
    if window.length < lineLimit then
      if window.isEmpty then (.done, console) else (.line window, { typed := [] })
    else if window.getLast? == some Byte.carriageReturn then
      (.line window.dropLast, { typed := console.typed.drop (lineLimit - 1) })
    else (.line window, { typed := console.typed.drop lineLimit })

end Console

/-- A one-based position in a source. -/
structure Position where
  line : Nat := 1
  column : Nat := 1
  deriving DecidableEq, Repr

namespace Position

def next (position : Position) (byte : UInt8) : Position :=
  if byte == Byte.newline then { line := position.line + 1, column := 1 }
  else { position with column := position.column + 1 }

def after (position : Position) (bytes : Bytes) : Position := bytes.foldl next position

end Position

end KnightLang
