import KnightLang.CommandLine.Arguments
import KnightLang.CommandLine.Repl
import KnightLang.Encoding
import KnightLang.Settings

/-!
The command line: runs a program from a file, an option or the standard input, or starts an
interactive session. An invocation and its outcome are data, so that the whole of it is a function.
-/

namespace KnightLang

/-- Everything that an invocation of the command line depends on. -/
structure Invocation where
  arguments : List Bytes
  /-- The bytes of the standard input. -/
  input : Bytes
  files : FileTree := {}
  home : Option Bytes := none
  /-- How the program was built, and the system it runs on. -/
  build : Bytes
  platform : Bytes
  /-- The seed that is used when none is given. -/
  clock : Int64 := 1
  /-- How often a loop may go round. -/
  fuel : Nat

def Invocation.world (invocation : Invocation) : World :=
  { files := invocation.files, home := invocation.home }

/-- What an invocation leaves behind. -/
structure Outcome where
  status : Int
  output : Bytes
  errors : Bytes
  files : FileTree
  deriving DecidableEq, Repr

/-- Why an invocation fails. -/
inductive CommandError where
  | usage (error : UsageError)
  | settings (problem : SettingsProblem)
  | depth (limit : Int)
  | encoding (name : Bytes)
  | logLevel (text problem : Bytes)
  | file (text : Bytes)
  | evaluation (error : Error)
  | fault (fault : Fault)
  | exhausted
  deriving DecidableEq, Repr

def CommandError.message : CommandError → Bytes
  | .usage error => error.message
  | .settings problem => problem.message
  | .depth limit => "max depth must be positive, not " ++ Bytes.ofInt limit
  | .encoding name => Encoding.unknown name
  | .logLevel text problem => "log level " ++ Quoted.text text ++ ": " ++ problem
  | .file text => text
  | .evaluation error => error.text
  | .fault broken => broken.message
  | .exhausted => "a loop ran for too long"

def CommandError.ofStop : Stop → CommandError
  | .error error => .evaluation error
  | .fault broken => .fault broken
  | .exhausted => .exhausted

namespace CommandLine

def languageVersion : Bytes := "1"

def usage : Bytes :=
  "Usage: knight [file] [flags]\n       knight repl [flags]\n       knight version [flags]\n"

def override (settings : Settings) (options : Options) : Settings :=
  { settings with
    maxDepth := options.maxDepth.getD settings.maxDepth
    seed := (options.seed.map Int64.ofInt).getD settings.seed
    checked := options.checked.getD settings.checked
    shell := options.shell.getD settings.shell
    encoding := options.encoding.getD settings.encoding
    logLevel := options.logLevel.getD settings.logLevel
    trace := options.trace.getD settings.trace
    prompt := options.prompt.getD settings.prompt
    history := options.history.getD settings.history }

/-- What a command works with: the settings, the encoding they name, and how to log. -/
structure Configuration where
  settings : Settings
  encoding : Encoding
  log : LogFormat
  deriving DecidableEq, Repr

/-- Checks settings. The depth is checked before the encoding, and the encoding before the log
level; tracing logs everything. -/
def check (settings : Settings) : Except CommandError Configuration :=
  if settings.maxDepth ≤ 0 then .error (.depth settings.maxDepth)
  else
    match Encoding.find? settings.encoding with
    | none => .error (.encoding settings.encoding)
    | some encoding =>
      let level : Bytes := if settings.trace then "debug" else settings.logLevel
      match Level.parse (Bytes.trim level) with
      | .error problem => .error (.logLevel level problem)
      | .ok threshold =>
        .ok { settings, encoding, log := { threshold, timeFormat := settings.timeFormat } }

/-- Reads the settings of an invocation. A file that is named has to exist. -/
def configure (invocation : Invocation) (options : Options) : Except CommandError Configuration :=
  let required := !options.config.isEmpty
  let path := if required then options.config else Settings.defaultPath invocation.home
  match Settings.load invocation.files invocation.home path required with
  | .error problem => .error (.settings problem)
  | .ok settings => check (override settings options)

/-- The session of an invocation, with a record that it is ready. -/
def start (invocation : Invocation) (settings : Settings) (input : Input) : Session :=
  let seed := if settings.seed = 0 then invocation.clock else settings.seed
  let world := { invocation.world with input, shell := .system settings.shell }
  let ready : LogRecord :=
    { level := .debug, message := "vm ready"
      fields := [("seed", Bytes.ofInt64 seed), ("max_depth", Bytes.ofInt settings.maxDepth)] }
  { machine :=
      { maxDepth := settings.maxDepth, checked := settings.checked, trace := settings.trace, seed
        random := UInt64.ofNat (seed.toInt % Decimal.unsignedBound).toNat
        world := world.log ready }
    fuel := invocation.fuel }

def statistics (machine : Machine) : Bytes :=
  let (footprint, _) := machine.footprint
  let entry := fun (name : String) (count : Nat) => Bytes.ofString name ++ [61] ++ Bytes.ofNat count
  Bytes.joinWith [32]
    [entry "variables" footprint.cells, entry "assigned" footprint.assigned,
      entry "strings" footprint.strings, entry "bytes" footprint.bytes,
      entry "exprs" footprint.exprs, entry "max_refs" footprint.maxRefs] ++ [Byte.newline]

/-- The state of an invocation after its command: the machine's world, and the exit status or an
error. -/
structure Finish where
  world : World
  result : Except CommandError Int

/-- Where a program comes from. -/
inductive Program where
  | expression (text : Bytes)
  | file (path : Bytes)
  | input
  deriving DecidableEq, Repr

/-- The program that options and an operand name. An empty name stands for none. -/
def program (options : Options) (operand : Option Bytes) : Except UsageError Program :=
  if operand.isSome && !options.file.isEmpty then .error .fileTwice
  else
    let path := operand.getD options.file
    match options.expression.isEmpty, path.isEmpty with
    | true, true => .ok .input
    | true, false => .ok (.file path)
    | false, true => .ok (.expression options.expression)
    | false, false => .error .expressionAndFile

def openFile (files : FileTree) (encoding : Encoding) (path : Bytes) : Except CommandError Source :=
  match files.open? path with
  | .error problem => .error (.file (FileTree.openFailure path problem))
  | .ok .directory =>
    .ok { unread := [], failure := some (FileTree.readFailure path .isDirectory) }
  | .ok .sink => .ok (encoding.decode [])
  | .ok (.file contents) => .ok (encoding.decode contents)

/-- Makes an empty file at a path, unless the path is empty. -/
def create (world : World) (path : Bytes) : Except Bytes World :=
  if path.isEmpty then .ok world
  else
    match world.files.write path [] with
    | .ok files => .ok { world with files }
    | .error problem => .error (FileTree.openFailure path problem)

/-- The source of a program that is not read from the standard input, and its label. -/
def sourceOf (files : FileTree) (encoding : Encoding) :
    Program → Except CommandError (Option (Source × Bytes))
  | .expression text => .ok (some ({ unread := text }, "-e"))
  | .file path => (openFile files encoding path).map fun source => some (source, path)
  | .input => .ok none

/-- Evaluates a program, which shares the standard input with PROMPT if it is read from there. -/
def evaluate : Option (Source × Bytes) → Host Value
  | some (source, label) => Session.evaluating fun evaluator => evaluator.evaluate source label
  | none => Session.evaluateNext "stdin"

/-- Runs a program. Profiles are files that are made before and after it; statistics are written
last. -/
def runProgram (invocation : Invocation) (configuration : Configuration) (options : Options)
    (program : Program) : Finish :=
  match sourceOf invocation.files configuration.encoding program with
  | .error error => { world := invocation.world, result := .error error }
  | .ok source =>
    let input := Input.source (configuration.encoding.decode invocation.input)
    let session := start invocation configuration.settings input
    match create session.machine.world options.cpuProfile with
    | .error text => { world := session.machine.world, result := .error (.file text) }
    | .ok world =>
      let session := { session with machine := { session.machine with world } }
      let (result, session) : Except CommandError Int × Session :=
        match evaluate source session with
        | .ok value session =>
          match Session.onMachine (Run.release value) session with
          | .ok _ session => (.ok 0, session)
          | .error stop session => (.error (.ofStop stop), session)
        | .error (.error error) session =>
          match error.quitCode? with
          | some status => (.ok status, session)
          | none => (.error (.evaluation error), session)
        | .error stop session => (.error (.ofStop stop), session)
      let world := match create session.machine.world options.memoryProfile with
        | .ok world => world
        | .error text =>
          session.machine.world.log
            { level := .warn, message := "profiling", fields := [("err", text)] }
      let world := if options.stats then world.complain (statistics session.machine) else world
      { world, result }

/-- The history that a file holds; one that cannot be read is empty. -/
def loadHistory (files : FileTree) (path : Bytes) : History :=
  match files.open? path with
  | .ok (.file contents) => History.read contents
  | _ => {}

def saveHistory (world : World) (path : Bytes) (history : History) : World :=
  match world.files.write path history.written with
  | .ok files => { world with files }
  | .error problem =>
    world.log
      { level := .warn, message := "saving history"
        fields := [("path", path), ("err", FileTree.openFailure path problem)] }

def runRepl (invocation : Invocation) (configuration : Configuration) : Finish :=
  let settings := configuration.settings
  let session := start invocation settings (.console { typed := invocation.input })
  let keepsHistory := !settings.history.isEmpty
  let history := if keepsHistory then loadHistory invocation.files settings.history else {}
  let bound := invocation.input.length + 2
  let action : Host (History × Int) := do
    Repl.print ("knight " ++ languageVersion ++ " (" ++ invocation.platform ++ ")\n")
    Repl.loop settings.prompt bound bound history
  match action session with
  | .ok (history, status) session =>
    let world := session.machine.world
    { world := if keepsHistory then saveHistory world settings.history history else world
      result := .ok status }
  | .error stop session => { world := session.machine.world, result := .error (.ofStop stop) }

/-- Performs a command with its arguments, and says how it logs. Arguments are checked before the
settings are read. -/
def perform (invocation : Invocation) (command : Subcommand) (arguments : List Bytes) :
    Finish × LogFormat :=
  let silent : LogFormat := { threshold := 0, timeFormat := [] }
  let say := fun (bytes : Bytes) =>
    ({ world := invocation.world.print bytes, result := .ok 0 } : Finish)
  let fail := fun (error : CommandError) =>
    (({ world := invocation.world, result := .error error } : Finish), silent)
  match Arguments.parse command arguments with
  | .error error => fail (.usage error)
  | .ok { options, operands } =>
    if options.help then (say usage, silent)
    else
      match command, operands with
      | .help, _ => (say usage, silent)
      | .run, operands =>
        if 1 < operands.length then fail (.usage (.tooManyArguments 1 operands.length))
        else
          match configure invocation options with
          | .error error => fail error
          | .ok configuration =>
            match program options operands.head? with
            | .error error => fail (.usage error)
            | .ok program =>
              (runProgram invocation configuration options program, configuration.log)
      | command, operand :: _ => fail (.usage (.unknownCommand operand command))
      | command, [] =>
        match configure invocation options with
        | .error error => fail error
        | .ok configuration =>
          if command = .repl then (runRepl invocation configuration, configuration.log)
          else
            (say ("knight " ++ languageVersion ++ " " ++ invocation.build ++ " ("
              ++ invocation.platform ++ ")\n"), configuration.log)

/-- The files that an invocation may read or make. The history is among them once the settings are
there to name it. -/
def paths (invocation : Invocation) : List Bytes :=
  let (command, arguments) := Arguments.choose invocation.arguments
  match Arguments.parse command arguments with
  | .error _ => []
  | .ok { options, operands } =>
    let history := match configure invocation options with
      | .ok configuration => configuration.settings.history
      | .error _ => []
    let named := [Settings.defaultPath invocation.home, options.config, options.file,
      options.cpuProfile, options.memoryProfile, history] ++ operands
    named.filter fun path => !path.isEmpty

/-- Performs an invocation. A failure is reported on the standard error and gives the status 1. -/
def execute (invocation : Invocation) : Outcome :=
  let (command, arguments) := Arguments.choose invocation.arguments
  let (finish, log) := perform invocation command arguments
  let errors := log.notices finish.world.notices
  match finish.result with
  | .ok status => { status, output := finish.world.output, errors, files := finish.world.files }
  | .error error =>
    { status := 1, output := finish.world.output
      errors := errors ++ "knight: " ++ error.message ++ [Byte.newline]
      files := finish.world.files }

end CommandLine

end KnightLang
