import KnightLang.CommandLine.Flag

/-!
The arguments of the command line: which command they choose, and the flags and operands that they
give to it.
-/

namespace KnightLang.Arguments

def byName? (flags : List Flag) (name : Bytes) : Option Flag :=
  flags.find? fun flag => flag.name == name

def byLetter? (flags : List Flag) (letter : UInt8) : Option Flag :=
  flags.find? fun flag => flag.letter? == some letter

/-- Whether an argument is taken to have its value in the next one while the command is looked for.
A flag that is not known counts as one that needs a value. -/
def takesNext (flags : List Flag) (argument : Bytes) : Bool :=
  !argument.contains 61 &&
    match argument with
    | 45 :: 45 :: name => !(byName? flags name).any Flag.isSwitch
    | [45, letter] => !(byLetter? flags letter).any Flag.isSwitch
    | _ => false

/-- The first operand that may choose a command. A flag that takes the next argument ends the search
if nothing follows that argument. -/
def firstOperand? (flags : List Flag) : List Bytes → Option Bytes
  | [] => none
  | argument :: rest =>
    if argument == Bytes.ofString "--" then none
    else if takesNext flags argument then
      match rest with
      | _ :: next :: rest => firstOperand? flags (next :: rest)
      | _ => none
    else if argument.isEmpty || argument.head? == some 45 then firstOperand? flags rest
    else some argument

/-- The arguments without the operand that chose the command. -/
def withoutOperand (flags : List Flag) (operand : Bytes) : List Bytes → List Bytes
  | [] => []
  | argument :: rest =>
    if argument == Bytes.ofString "--" then argument :: rest
    else if takesNext flags argument then
      match rest with
      | value :: rest => argument :: value :: withoutOperand flags operand rest
      | [] => [argument]
    else if argument == operand then rest
    else argument :: withoutOperand flags operand rest

/-- The command that arguments choose, and the arguments that are left to it. -/
def choose (arguments : List Bytes) : Subcommand × List Bytes :=
  let flags := Subcommand.run.flags
  match firstOperand? flags arguments with
  | none => (.run, arguments)
  | some operand =>
    match Subcommand.named.lookup operand with
    | some command => (command, withoutOperand flags operand arguments)
    | none => (.run, arguments)

/-- The flags that were given and the other arguments, the latest first. -/
structure Parsed where
  options : Options := {}
  operands : List Bytes := []
  deriving DecidableEq, Repr

def switchValue : Bytes := "true"

/-- What a flag written with its name gives: the options after it, and whether it used the next
argument for its value. -/
def longFlag (flags : List Flag) (options : Options) (argument : Bytes) (next : Option Bytes) :
    Except UsageError (Options × Bool) :=
  let body := argument.drop 2
  if body.head? == some 45 || body.head? == some 61 then .error (.malformedFlag argument)
  else
    let (name, value) := Bytes.splitAtByte 61 body
    match byName? flags name with
    | none => .error (.unknownFlag name)
    | some flag =>
      match value, flag.isSwitch, next with
      | some value, _, _ => (options.set flag value).map fun options => (options, false)
      | none, true, _ => (options.set flag switchValue).map fun options => (options, false)
      | none, false, some value => (options.set flag value).map fun options => (options, true)
      | none, false, none => .error (.missingValue argument)

/-- What flags written with their letters give. Letters that begin with `test.` are passed over. -/
def letterFlags (flags : List Flag) (next : Option Bytes) : Options → Bytes →
    Except UsageError (Options × Bool)
  | options, [] => .ok (options, false)
  | options, letter :: rest =>
    if (Bytes.ofString "test.").isPrefixOf (letter :: rest) then .ok (options, false)
    else
      match byLetter? flags letter with
      | none => .error (.unknownLetter letter (letter :: rest))
      | some flag =>
        match rest with
        | 61 :: first :: value =>
          (options.set flag (first :: value)).map fun options => (options, false)
        | _ =>
          if flag.isSwitch then
            match options.set flag switchValue with
            | .error problem => .error problem
            | .ok options => letterFlags flags next options rest
          else if !rest.isEmpty then (options.set flag rest).map fun options => (options, false)
          else
            match next with
            | some value => (options.set flag value).map fun options => (options, true)
            | none => .error (.missingLetterValue letter [letter])

/-- Reads the arguments of a command. After two dashes everything is an operand. -/
def parseFrom (flags : List Flag) : Parsed → List Bytes → Except UsageError Parsed
  | parsed, [] => .ok parsed
  | parsed, argument :: rest =>
    if argument.length < 2 || argument.head? != some 45 then
      parseFrom flags { parsed with operands := argument :: parsed.operands } rest
    else if argument == Bytes.ofString "--" then
      .ok { parsed with operands := rest.reverse ++ parsed.operands }
    else
      let given :=
        if argument[1]? == some 45 then longFlag flags parsed.options argument rest.head?
        else letterFlags flags rest.head? parsed.options argument.tail
      match given, rest with
      | .error problem, _ => .error problem
      | .ok (options, true), _ :: rest => parseFrom flags { parsed with options } rest
      | .ok (options, _), rest => parseFrom flags { parsed with options } rest

/-- The options and operands of a command, or why its arguments are refused. -/
def parse (command : Subcommand) (arguments : List Bytes) : Except UsageError Parsed :=
  (parseFrom (command.flags ++ [.help]) {} arguments).map fun parsed =>
    { parsed with operands := parsed.operands.reverse }

end KnightLang.Arguments
