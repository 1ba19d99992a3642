import KnightLang.Text.Integer
import KnightLang.Text.Quoted

/-!
The commands of the command line, the flags that each of them knows, and the values given to them.
-/

namespace KnightLang

/-- What the command line is asked to do. -/
inductive Subcommand where
  | run
  | repl
  | version
  | help
  deriving DecidableEq, Repr

/-- The flags. -/
inductive Flag where
  | config
  | maxDepth
  | seed
  | checked
  | shell
  | encoding
  | logLevel
  | trace
  | expression
  | file
  | stats
  | cpuProfile
  | memoryProfile
  | prompt
  | history
  | help
  deriving DecidableEq, Repr

/-- The values that a flag takes; a switch may stand without one. -/
inductive FlagType where
  | text
  | integer
  | switch
  deriving DecidableEq, Repr

namespace Flag

def name : Flag → Bytes
  | .config => "config"
  | .maxDepth => "max-depth"
  | .seed => "seed"
  | .checked => "checked"
  | .shell => "shell"
  | .encoding => "encoding"
  | .logLevel => "log-level"
  | .trace => "trace"
  | .expression => "expression"
  | .file => "file"
  | .stats => "stats"
  | .cpuProfile => "cpuprofile"
  | .memoryProfile => "memprofile"
  | .prompt => "prompt"
  | .history => "history"
  | .help => "help"

def letter? : Flag → Option UInt8
  | .expression => some 101
  | .file => some 102
  | .help => some 104
  | _ => none

def type : Flag → FlagType
  | .maxDepth => .integer
  | .seed => .integer
  | .checked => .switch
  | .trace => .switch
  | .stats => .switch
  | .help => .switch
  | _ => .text

/-- Whether a flag may stand without a value. -/
def isSwitch (flag : Flag) : Bool := flag.type = .switch

/-- A flag as messages show it, with its letter in front. -/
def shown (flag : Flag) : Bytes :=
  match flag.letter? with
  | some letter => [45, letter] ++ ", --" ++ flag.name
  | none => "--" ++ flag.name

def shared : List Flag :=
  [.config, .maxDepth, .seed, .checked, .shell, .encoding, .logLevel, .trace]

end Flag

namespace Subcommand

def named : List (Bytes × Subcommand) :=
  [("repl", .repl), ("version", .version), ("help", .help), ("completion", .help)]

def path : Subcommand → Bytes
  | .run => "knight"
  | .repl => "knight repl"
  | .version => "knight version"
  | .help => "knight help"

/-- The flags of a command, apart from the one for help. -/
def flags : Subcommand → List Flag
  | .run => Flag.shared ++ [.expression, .file, .stats, .cpuProfile, .memoryProfile]
  | .repl => Flag.shared ++ [.prompt, .history]
  | .version => Flag.shared
  | .help => Flag.shared

end Subcommand

/-- The flags that were given, each with the last of its values. -/
structure Options where
  config : Bytes := []
  maxDepth : Option Int := none
  seed : Option Int := none
  checked : Option Bool := none
  shell : Option Bytes := none
  encoding : Option Bytes := none
  logLevel : Option Bytes := none
  trace : Option Bool := none
  expression : Bytes := []
  file : Bytes := []
  stats : Bool := false
  cpuProfile : Bytes := []
  memoryProfile : Bytes := []
  prompt : Option Bytes := none
  history : Option Bytes := none
  help : Bool := false
  deriving DecidableEq, Repr

/-- Why the arguments of the command line are refused. -/
inductive UsageError where
  | malformedFlag (argument : Bytes)
  | unknownFlag (name : Bytes)
  | missingValue (argument : Bytes)
  | unknownLetter (letter : UInt8) (letters : Bytes)
  | missingLetterValue (letter : UInt8) (letters : Bytes)
  | notAnInteger (flag : Flag) (value : Bytes) (problem : Integer.Problem)
  | notASwitch (flag : Flag) (value : Bytes)
  | unknownCommand (argument : Bytes) (command : Subcommand)
  | tooManyArguments (limit count : Nat)
  | fileTwice
  | expressionAndFile
  deriving DecidableEq, Repr

def UsageError.invalidValue (flag : Flag) (value problem : Bytes) : Bytes :=
  Bytes.ofString "invalid argument " ++ Quoted.text value ++ " for " ++ Quoted.text flag.shown
    ++ " flag: " ++ problem

def UsageError.message : UsageError → Bytes
  | .malformedFlag argument => "bad flag syntax: " ++ argument
  | .unknownFlag name => "unknown flag: --" ++ name
  | .missingValue argument => "flag needs an argument: " ++ argument
  | .unknownLetter letter letters =>
    "unknown shorthand flag: " ++ Quoted.byte letter ++ " in -" ++ letters
  | .missingLetterValue letter letters =>
    "flag needs an argument: " ++ Quoted.byte letter ++ " in -" ++ letters
  | .notAnInteger flag value problem =>
    invalidValue flag value
      ("strconv.ParseInt: parsing " ++ Quoted.text value ++ ": " ++ problem.message)
  | .notASwitch flag value =>
    invalidValue flag value
      ("strconv.ParseBool: parsing " ++ Quoted.text value ++ ": "
        ++ Integer.Problem.malformed.message)
  | .unknownCommand argument command =>
    "unknown command " ++ Quoted.text argument ++ " for " ++ Quoted.text command.path
  | .tooManyArguments limit count =>
    "accepts at most " ++ Bytes.ofNat limit ++ " arg(s), received " ++ Bytes.ofNat count
  | .fileTwice => "cannot use both --file and a file argument"
  | .expressionAndFile => "cannot use both --expression and a file"

namespace Options

def trueWords : List Bytes := ["1", "t", "T", "TRUE", "true", "True"]

def falseWords : List Bytes := ["0", "f", "F", "FALSE", "false", "False"]

/-- The truth value that is written as the value of a switch. -/
def switch (flag : Flag) (value : Bytes) : Except UsageError Bool :=
  if trueWords.contains value then .ok true
  else if falseWords.contains value then .ok false
  else .error (.notASwitch flag value)

/-- The integer that is written as the value of a flag. -/
def integer (flag : Flag) (value : Bytes) : Except UsageError Int :=
  match Integer.signed true value with
  | .ok number => .ok number
  | .error problem => .error (.notAnInteger flag value problem)

def set (options : Options) (flag : Flag) (value : Bytes) : Except UsageError Options :=
  match flag with
  | .config => .ok { options with config := value }
  | .maxDepth => (integer flag value).map fun limit => { options with maxDepth := some limit }
  | .seed => (integer flag value).map fun seed => { options with seed := some seed }
  | .checked => (switch flag value).map fun checked => { options with checked := some checked }
  | .shell => .ok { options with shell := some value }
  | .encoding => .ok { options with encoding := some value }
  | .logLevel => .ok { options with logLevel := some value }
  | .trace => (switch flag value).map fun trace => { options with trace := some trace }
  | .expression => .ok { options with expression := value }
  | .file => .ok { options with file := value }
  | .stats => (switch flag value).map fun stats => { options with stats }
  | .cpuProfile => .ok { options with cpuProfile := value }
  | .memoryProfile => .ok { options with memoryProfile := value }
  | .prompt => .ok { options with prompt := some value }
  | .history => .ok { options with history := some value }
  | .help => (switch flag value).map fun help => { options with help }

end Options

end KnightLang
