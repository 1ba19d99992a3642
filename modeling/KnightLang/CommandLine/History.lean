import KnightLang.Text.Utf8

/-!
The history of an interactive session: the programs that were entered, without immediate
repetitions and with a limit on their number.
-/

namespace KnightLang

/-- Entered programs, the latest first. -/
structure History where
  entries : List Bytes := []
  deriving DecidableEq, Repr

namespace History

def limit : Nat := 1000

/-- A line of a file must be shorter than this. -/
def lineLimit : Nat := 4096

/-- Adds a program, and forgets the oldest one past the limit. -/
def push (history : History) (entry : Bytes) : History :=
  { entries := (entry :: history.entries).take limit }

/-- Adds a program unless it is the latest one. -/
def add (history : History) (entry : Bytes) : History :=
  if history.entries.head? == some entry then history else history.push entry

/-- Reads lines up to the first one that is too long or not valid text. `line` holds the bytes of
the current line, the latest first. -/
def readFrom : History → Bytes → Bytes → History
  | history, line, [] =>
    let text := line.reverse
    if text.isEmpty || lineLimit ≤ text.length || !Utf8.isValid text then history
    else history.push text
  | history, line, byte :: rest =>
    if byte == Byte.newline then
      let text := match line with
        | [] => []
        | last :: before => if last == Byte.carriageReturn then before.reverse else line.reverse
      if lineLimit ≤ line.length || !Utf8.isValid text then history
      else readFrom (history.push text) [] rest
    else readFrom history (byte :: line) rest

def read (contents : Bytes) : History := readFrom {} [] contents

/-- The file that holds a history: one program a line, the oldest first. -/
def written (history : History) : Bytes :=
  history.entries.reverse.flatMap fun entry => entry ++ [Byte.newline]

end History

end KnightLang
