import KnightLang.Source
import KnightLang.Shell

/-!
What a machine deals with outside itself, as data: the lines it will read, the shell that answers
its commands, the writes and flushes that will fail, and a record of everything it did.
-/

namespace KnightLang

/-- How serious a log record is. -/
inductive Level where
  | debug
  | info
  | warn
  | error
  deriving DecidableEq, Repr

namespace Level

def name : Level → Bytes
  | .debug => "DEBUG"
  | .info => "INFO"
  | .warn => "WARN"
  | .error => "ERROR"

def severity : Level → Int
  | .debug => -4
  | .info => 0
  | .warn => 4
  | .error => 8

end Level

/-- A diagnostic: its level, its message, and named details in order. -/
structure LogRecord where
  level : Level
  message : Bytes
  fields : List (Bytes × Bytes) := []
  deriving DecidableEq, Repr

/-- Something that goes to the standard error: a log record, or text as it is. -/
inductive Notice where
  | log (record : LogRecord)
  | text (bytes : Bytes)
  deriving DecidableEq, Repr

/-- Where lines come from: a buffered source, a list of prepared answers, or a console. -/
inductive Input where
  | source (bytes : Source)
  | prepared (lines : List LineResult)
  | console (typist : Console)
  deriving DecidableEq, Repr

/-- The next line, and the input after it. -/
def Input.readLine : Input → LineResult × Input
  | .source bytes =>
    let (line, rest) := bytes.readLine
    (line, .source rest)
  | .prepared [] => (.done, .prepared [])
  | .prepared (line :: lines) => (line, .prepared lines)
  | .console typist =>
    let (line, rest) := typist.readLine
    (line, .console rest)

/-- What is done to the output of a machine. -/
inductive OutputStep where
  | write
  | flush
  deriving DecidableEq, Repr

/-- The steps of one kind that fail: the number of each of them, counted from one, with the text of
its failure. -/
structure Failures (step : OutputStep) where
  texts : List (Nat × Bytes) := []
  deriving DecidableEq, Repr

namespace Failures

variable {step : OutputStep}

/-- The failure of the step with a given number, if it fails. -/
def text? (failures : Failures step) (number : Nat) : Option Bytes := failures.texts.lookup number

/-- A single failure, whose text names the step. -/
def once (step : OutputStep) (number : Nat) : Failures step :=
  match step with
  | .write => { texts := [(number, "write failed")] }
  | .flush => { texts := [(number, "flush failed")] }

/-- A number stands for the failure of the step with that number. -/
instance : Coe Nat (Failures step) := ⟨once step⟩

end Failures

/-- Everything outside a machine. -/
structure World where
  input : Input := .prepared []
  shell : Shell := .system []
  files : FileTree := {}
  home : Option Bytes := none
  canFlush : Bool := true
  failingWrite : Failures .write := {}
  failingFlush : Failures .flush := {}
  writes : Nat := 0
  flushes : Nat := 0
  /-- What was written, the latest first. -/
  chunks : List Bytes := []
  /-- The commands given to a prepared shell, the latest first. -/
  commands : List Bytes := []
  /-- Diagnostics, the latest first. -/
  notices : List Notice := []
  deriving Repr

namespace World

/-- All bytes written, in order. -/
def output (world : World) : Bytes := world.chunks.reverse.flatten

/-- Puts bytes into the output without writing them through the program's channel. -/
def print (world : World) (bytes : Bytes) : World := { world with chunks := bytes :: world.chunks }

def complain (world : World) (bytes : Bytes) : World :=
  { world with notices := .text bytes :: world.notices }

/-- Writes bytes, unless this is a write that fails. -/
def write (world : World) (bytes : Bytes) : Option Bytes × World :=
  let world := { world with writes := world.writes + 1 }
  match world.failingWrite.text? world.writes with
  | some text => (some text, world)
  | none => (none, { world with chunks := bytes :: world.chunks })

/-- Flushes the output if it can be. A flush that fails gives the text of its failure. -/
def flush (world : World) : Option Bytes × World :=
  if world.canFlush then
    let world := { world with flushes := world.flushes + 1 }
    (world.failingFlush.text? world.flushes, world)
  else (none, world)

def log (world : World) (record : LogRecord) : World :=
  { world with notices := .log record :: world.notices }

def readLine (world : World) : LineResult × World :=
  let (line, input) := world.input.readLine
  (line, { world with input })

/-- Runs a command and gives its standard output, or the text of the failure to run it. -/
def runCommand (world : World) (command : Bytes) : Except Bytes Bytes × World :=
  let answer := world.shell.answer world.home world.files command
  let world := { world with files := answer.files }
  let world :=
    if answer.isRecorded then { world with commands := command :: world.commands } else world
  let world :=
    if answer.errors.isEmpty then world
    else { world with notices := .text answer.errors :: world.notices }
  (answer.result, world)

end World

end KnightLang
