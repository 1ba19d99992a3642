import KnightLang.CommandLine.History
import KnightLang.Log
import KnightLang.Session

/-!
Interactive sessions: programs are read from a console, a line at a time until they are complete,
and evaluated in one machine.
-/

namespace KnightLang.Repl

def continuationPrompt : Bytes := "... "

/-- Whether a prompt can be shown: all of its characters are printable or separate words. -/
def isShowable (prompt : Bytes) : Bool :=
  (Utf8.pieces prompt).all fun piece =>
    Unicode.isPrintable piece.point || Unicode.isSeparator piece.point

def print (bytes : Bytes) : Host PUnit :=
  Session.onMachine (modify fun machine => { machine with world := machine.world.print bytes })

def complain (bytes : Bytes) : Host PUnit :=
  Session.onMachine (modify fun machine =>
    { machine with world := machine.world.complain (bytes ++ [Byte.newline]) })

/-- Shows a prompt and reads a line. Nothing is read after the end of input or without a prompt that
can be shown. -/
def promptLine (prompt : Bytes) : Host (Option Bytes) := do
  if !isShowable prompt then return none
  print prompt
  let result ← Session.onMachine (modifyGet fun machine =>
    let (line, world) := machine.world.readLine
    (line, { machine with world }))
  match result with
  | .line line => return some line
  | _ => return none

/-- Reads lines until they hold a complete expression, an error, or all that is left; without any,
there is no program. `fuel` bounds the number of lines. -/
def readProgram (prompt : Bytes) : Nat → Bytes → Host (Option Bytes)
  | 0, _ => return none
  | fuel + 1, sofar => do
    match ← promptLine (if sofar.isEmpty then prompt else continuationPrompt) with
    | none => return if sofar.isEmpty then none else some sofar
    | some line =>
      let program := if sofar.isEmpty then line else sofar ++ [Byte.newline] ++ line
      if ← Session.onMachine (Session.isIncomplete program) then readProgram prompt fuel program
      else return some program

def historyEntry (program : Bytes) : Bytes :=
  program.map fun byte => if byte == Byte.newline then 32 else byte

/-- Reads and evaluates programs until the input ends or one of them quits, and gives the history
and the exit status. `lines` bounds the lines of a program, and `fuel` the number of programs. -/
def loop (prompt : Bytes) (lines : Nat) : Nat → History → Host (History × Int)
  | 0, history => return (history, 0)
  | fuel + 1, history => do
    match ← readProgram prompt lines [] with
    | none =>
      print [Byte.newline]
      return (history, 0)
    | some program =>
      if (Bytes.trim program).isEmpty then loop prompt lines fuel history
      else
        let history := history.add (historyEntry program)
        let result ← Session.attempt
          (Session.evaluating fun evaluator => evaluator.evaluate { unread := program } "repl")
        match result with
        | .error error =>
          match error.quitCode? with
          | some status => return (history, status)
          | none =>
            complain error.text
            loop prompt lines fuel history
        | .ok value =>
          print ((← Session.onMachine (Run.dump value)) ++ [Byte.newline])
          Session.onMachine (Run.release value)
          loop prompt lines fuel history

end KnightLang.Repl
