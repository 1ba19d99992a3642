import KnightLang.Shell.Condition
import KnightLang.Shell.Grammar
import KnightLang.Shell.Program

/-!
The commands that shells perform themselves.
-/

namespace KnightLang.Shell

/-- A command that the shell performs itself. -/
inductive Builtin where
  /-- Does nothing and gives a status. -/
  | nothing (status : Nat)
  | echo
  | printf
  | test
  | changeDirectory
  | printDirectory
  | read
  | set
  | shift
  | unset
  /-- Marks variables, so that programs see them or so that they do not change. -/
  | mark (readOnly : Bool)
  | makeLocal
  /-- Leaves loops, or goes on with their next turn. -/
  | leave (goesOn : Bool)
  | finish
  | exit
  | evaluate
  | source
  | execute
  | command
  | type
  | trap
  | mask
  deriving DecidableEq, Repr

namespace Builtin

def all : List (Bytes × Builtin) :=
  [(":", .nothing 0), ("true", .nothing 0), ("false", .nothing 1), ("wait", .nothing 0),
    ("hash", .nothing 0), ("jobs", .nothing 0), ("echo", .echo), ("printf", .printf),
    ("test", .test), ("[", .test), ("cd", .changeDirectory), ("pwd", .printDirectory),
    ("read", .read), ("set", .set), ("shift", .shift), ("unset", .unset),
    ("export", .mark false), ("readonly", .mark true), ("local", .makeLocal),
    ("break", .leave false), ("continue", .leave true), ("return", .finish), ("exit", .exit),
    ("eval", .evaluate), (".", .source), ("exec", .execute), ("command", .command),
    ("type", .type), ("trap", .trap), ("umask", .mask)]

/-- Whether a mistake of the builtin with a name ends the script. -/
def isSpecial (name : Bytes) : Bool := Parser.specialBuiltins.contains name

end Builtin

namespace Script

/-- Writes to the standard output, and complains if that is not possible. -/
def print (bytes : Bytes) : Script Unit := do
  unless bytes.isEmpty do
    unless ← send 1 bytes do
      let name := (← get).scope.builtin.getD []
      warn (name ++ ": I/O error")
      setStatus 1

/-- Splits arguments into the options at their front and the operands; two hyphens end the
options. -/
def splitOptions : List Bytes → List Bytes × List Bytes
  | [] => ([], [])
  | argument :: rest =>
    if argument == Bytes.ofString "--" then ([], rest)
    else if argument.head? == some 45 && argument.length != 1 then
      let (options, operands) := splitOptions rest
      (argument :: options, operands)
    else ([], argument :: rest)

def countOf (argument : Bytes) : Script Nat := do
  match Numeral.count? argument with
  | some count => return count
  | none => fail ("Illegal number: " ++ argument)

/-- Writes what `printf` makes of a format and words. Complaints come before the output. -/
def printFormat (format : Bytes) (words : List Bytes) : Script Unit := do
  let printing := printf format words
  printing.complaints.reverse.forM warn
  setStatus printing.status
  print printing.output.reverse.flatten

/-- Performs `printf`, which has no options. -/
def performPrintf (arguments : List Bytes) : Script Unit := do
  match arguments with
  | [] | [[45, 45]] => fail "usage: printf format [arg ...]"
  | [45, 45] :: format :: words => printFormat format words
  | (45 :: letter :: _) :: _ => fail ("Illegal option -" ++ [letter])
  | format :: words => printFormat format words

/-- Performs `test`; under its other name, a word that begins with a bracket has to close it. -/
def performTest (name : Bytes) (arguments : List Bytes) : Script Unit := do
  let isBracket := name == Bytes.ofString "["
  if isBracket && (arguments.getLast?.getD []).head? != some 93 then fail "missing ]"
  let words := if isBracket then arguments.dropLast else arguments
  match Condition.decide (← get).files 4 words with
  | .ok holds => setStatus (if holds then 0 else 1)
  | .error problem => fail problem.message

def directoryText (tree : FileTree) : Bytes := 47 :: Bytes.joinWith [47] tree.here

/-- Performs `cd`. -/
def performChange (arguments : List Bytes) : Script Unit := do
  let files := (← get).files
  let old := directoryText files
  let (target, isBack) ← match arguments with
    | [] => pure ((← value? "HOME").getD [], false)
    | argument :: _ =>
      if argument == ([45] : Bytes) then pure ((← value? "OLDPWD").getD old, true)
      else pure (argument, false)
  unless target.isEmpty do
    match files.locate target with
    | .ok found =>
      unless files.isDirectory found do fail ("can't cd to " ++ target)
      let files := { files with here := found, directories := files.here :: files.directories }
      modify ({ · with files })
      assign "OLDPWD" old
      assign "PWD" (directoryText files)
      if isBack then print (directoryText files ++ [Byte.newline])
    | .error _ => fail ("can't cd to " ++ target)

/-- The bytes of a line: after a backslash, a byte stands for itself, and a line end is left out. -/
def lineGlyphs (keepsBackslashes : Bool) : Bytes → List Glyph
  | [] => []
  | 92 :: next :: rest =>
    if keepsBackslashes then
      { byte := 92, isLiteral := false } :: lineGlyphs keepsBackslashes (next :: rest)
    else if next == Byte.newline then lineGlyphs keepsBackslashes rest
    else { byte := next, isLiteral := true } :: lineGlyphs keepsBackslashes rest
  | byte :: rest => { byte, isLiteral := false } :: lineGlyphs keepsBackslashes rest

/-- Whether a line goes on after its end: an odd number of backslashes stands before it. -/
def goesOn (line : Bytes) : Bool :=
  match line.reverse with
  | 10 :: rest => (rest.takeWhile (· == 92)).length % 2 == 1
  | _ => false

/-- Takes a line with those that go on after it; the fuel bounds their number. -/
def receiveLines (keepsBackslashes : Bool) : Nat → Script Bytes
  | 0 => return []
  | fuel + 1 => do
    let line ← receive true 0
    if !keepsBackslashes && goesOn line then return line ++ (← receiveLines keepsBackslashes fuel)
    else return line

/-- The first word of a line and the rest after its separator. -/
def firstField (separators : Bytes) (glyphs : List Glyph) : List Glyph × List Glyph :=
  let separates := fun (glyph : Glyph) => !glyph.isLiteral && separators.contains glyph.byte
  let isBlank := fun (glyph : Glyph) => separates glyph && [32, 9, 10].contains glyph.byte
  let glyphs := glyphs.dropWhile isBlank
  let field := glyphs.takeWhile fun glyph => !separates glyph
  let rest := (glyphs.drop field.length).dropWhile isBlank
  let rest := match rest with
    | glyph :: after => if separates glyph then after.dropWhile isBlank else rest
    | [] => []
  (field, rest)

/-- The values that `read` gives to variables; the last one takes all that is left. -/
def fieldsFor (separators : Bytes) : List Bytes → List Glyph → List (Bytes × Bytes)
  | [], _ => []
  | [name], glyphs =>
    let isBlank := fun (glyph : Glyph) =>
      !glyph.isLiteral && separators.contains glyph.byte && [32, 9, 10].contains glyph.byte
    let (field, rest) := firstField separators glyphs
    let all := ((glyphs.dropWhile isBlank).reverse.dropWhile isBlank).reverse
    [(name, (if rest.isEmpty then field else all).map Glyph.byte)]
  | name :: names, glyphs =>
    let (field, rest) := firstField separators glyphs
    (name, field.map Glyph.byte) :: fieldsFor separators names rest

/-- Performs `read`. -/
def performRead (arguments : List Bytes) : Script Unit := do
  let (options, names) := splitOptions arguments
  let keepsBackslashes := options.contains (Bytes.ofString "-r")
  if names.isEmpty then fail "arg count"
  match names.find? fun name => !isName name with
  | some name => fail (name ++ ": bad variable name")
  | none =>
    let line ← receiveLines keepsBackslashes 1000000
    let isComplete := line.getLast? == some Byte.newline
    let line := if isComplete then line.dropLast else line
    let glyphs := lineGlyphs keepsBackslashes (line.filter (· != 0))
    (fieldsFor (← separators) names glyphs).forM fun (name, value) => assign name value
    setStatus (if isComplete then 0 else 1)

/-- The switches after one of them is turned on or off by its letter, if there is such a switch. -/
def switch? (isOn : Bool) (letter : UInt8) (switches : Switches) : Option Switches :=
  match letter with
  | 101 => some { switches with stopsAtFailure := isOn }
  | 117 => some { switches with requiresValues := isOn }
  | 102 => some { switches with keepsPatterns := isOn }
  | 120 => some { switches with showsCommands := isOn }
  | 67 => some { switches with keepsFiles := isOn }
  | _ =>
    if (Bytes.ofString "aIbimnpsvVE").contains letter then some switches else none

def switchNames : List (Bytes × UInt8) :=
  [("errexit", 101), ("nounset", 117), ("noglob", 102), ("xtrace", 120), ("noclobber", 67),
    ("allexport", 97), ("verbose", 118), ("noexec", 110), ("notify", 98), ("vi", 86)]

/-- Turns a switch on or off, or refuses. -/
def turn (isOn : Bool) (letter : UInt8) (asWritten : Bytes) : Script Unit := do
  match switch? isOn letter (← get).scope.switches with
  | some switches => modifyScope ({ · with switches })
  | none => fail ("Illegal option -" ++ asWritten)

/-- Performs the options of `set`, and gives the arguments if there are new ones. -/
def performOptions : List Bytes → Script (Option (List Bytes))
  | [] => return none
  | argument :: rest =>
    match argument with
    | [45, 45] => return some rest
    | [45] => return if rest.isEmpty then none else some rest
    | [45, 111] | [43, 111] =>
      match rest with
      | [] => return none
      | name :: rest => do
        let sign := argument.take 1
        let letter := (switchNames.lookup name).getD 0
        turn (sign == ([45] : Bytes)) letter ("o " ++ name)
        performOptions rest
    | 45 :: letters => do
      letters.forM fun letter => turn true letter [letter]
      performOptions rest
    | 43 :: letters => do
      letters.forM fun letter => turn false letter [letter]
      performOptions rest
    | _ => return some (argument :: rest)

def inSingleQuotes (text : Bytes) : Bytes :=
  39 :: (text.flatMap fun byte => if byte == 39 then Bytes.ofString "'\"'\"'" else [byte]) ++ [39]

/-- Writes variables in order, each with a text in front. -/
def printVariables (front : Bytes) (shows : Variable → Bool) : Script Unit := do
  let shown := (← get).scope.assigned.filter fun entry => shows entry.2
  let sorted := shown.mergeSort fun left right => !(right.1 < left.1)
  sorted.forM fun (name, entry) => do
    match entry.value with
    | some value => print (front ++ name ++ "=" ++ inSingleQuotes value ++ [Byte.newline])
    | none => print (front ++ name ++ [Byte.newline])

/-- Performs `set`. -/
def performSet (arguments : List Bytes) : Script Unit := do
  if arguments.isEmpty then printVariables [] fun entry => entry.value.isSome
  else
    match ← performOptions arguments with
    | some arguments => modifyScope ({ · with arguments })
    | none => return

/-- Performs `shift`. -/
def performShift (arguments : List Bytes) : Script Unit := do
  let count ← match arguments with
    | [] => pure 1
    | argument :: _ => countOf argument
  let held := (← get).scope.arguments
  if held.length < count then fail "can't shift that many"
  modifyScope ({ · with arguments := held.drop count })

/-- Performs `unset`. -/
def performUnset (arguments : List Bytes) : Script Unit := do
  let (options, names) := splitOptions arguments
  let known : List Bytes := ["-f", "-v"]
  match options.find? fun option => !known.contains option with
  | some option => fail ("Illegal option -" ++ (option.drop 1).take 1)
  | none =>
    names.forM fun name => do
      if options.contains (Bytes.ofString "-f") then
        modifyScope fun scope =>
          { scope with functions := scope.functions.filter (·.1 != name) }
      else
        unless isName name do fail (name ++ ": bad variable name")
        if ((← entry? name).getD {}).isReadOnly then fail (name ++ ": is read only")
        putVariable name none

/-- Splits an argument at its first equals sign into a name and a value. -/
def namedValue (argument : Bytes) : Bytes × Option Bytes := Bytes.splitAtByte 61 argument

/-- Performs `export` or `readonly`. -/
def performMark (readOnly : Bool) (arguments : List Bytes) : Script Unit := do
  let (options, names) := splitOptions arguments
  if names.isEmpty && (readOnly || !options.isEmpty || arguments.isEmpty) then
    let front : Bytes := if readOnly then "readonly " else "export "
    printVariables front fun entry => if readOnly then entry.isReadOnly else entry.isExported
  names.forM fun argument => do
    let (name, value) := namedValue argument
    unless isName name do fail (name ++ ": bad variable name")
    match value with
    | some value => assign name value
    | none => pure ()
    let old := (← entry? name).getD {}
    putVariable name (some (
      if readOnly then { old with isReadOnly := true } else { old with isExported := true }))

def hide (name : Bytes) : Script Unit := do
  let old ← entry? name
  modifyScope fun scope => match scope.hidden with
    | [] => scope
    | frame :: outer =>
      if frame.any (·.1 == name) then scope
      else { scope with hidden := ((name, old) :: frame) :: outer }

/-- Performs `local`. -/
def performLocal (arguments : List Bytes) : Script Unit := do
  if (← get).scope.hidden.isEmpty then fail "not in a function"
  arguments.forM fun argument => do
    let (name, value) := namedValue argument
    unless isName name do fail (name ++ ": bad variable name")
    hide name
    match value with
    | some value => assign name value
    | none => pure ()

/-- Leaves as many loops as an argument says, at most all. -/
def performLeave (goesOn : Bool) (arguments : List Bytes) : Script Unit := do
  let count ← match arguments with
    | [] => pure 1
    | argument :: _ => countOf argument
  if count = 0 then fail ("Illegal number: " ++ arguments.headD [])
  let loops := (← get).scope.loops
  unless loops = 0 do
    let count := if loops < count then loops else count
    throw (if goesOn then .again count else .leave count)

/-- Ends a function or a script with the status that an argument gives, or with that of the last
command. -/
def performEnd (how : Interruption) (last : Nat) (arguments : List Bytes) : Script Unit := do
  match arguments with
  | [] => setStatus last
  | argument :: _ => setStatus ((← countOf argument) % 256)
  throw how

/-- What a name stands for as a command: the words that say so, or the text that finds it. -/
def describe (briefly : Bool) (name : Bytes) : Script Unit := do
  let say := fun (text : Bytes) =>
    print ((if briefly then name else name ++ " is " ++ text) ++ [Byte.newline])
  if keywords.contains name then say "a shell keyword"
  else if ((← get).scope.functions.lookup name).isSome then say "a shell function"
  else if Builtin.isSpecial name then say "a special shell builtin"
  else if (Builtin.all.lookup name).isSome then say "a shell builtin"
  else if (Program.all.lookup name).isSome then
    let path := Program.foundPath name
    print ((if briefly then path else name ++ " is " ++ path) ++ [Byte.newline])
  else
    unless briefly do print (name ++ ": not found\n")
    setStatus 127

/-- The events that a script can react to. Only its end does happen. -/
def events : List Bytes := ["HUP", "INT", "QUIT", "TERM", "USR1", "USR2", "PIPE", "ALRM", "CHLD"]

/-- Performs `trap`. -/
def performTrap (arguments : List Bytes) : Script Unit := do
  match arguments with
  | [] =>
    match (← get).scope.farewell with
    | some script => print ("trap -- " ++ inSingleQuotes script ++ " EXIT\n")
    | none => return
  | action :: names =>
    let (action, names) := if names.isEmpty then ([45], [action]) else (action, names)
    names.forM fun name => do
      if name == Bytes.ofString "EXIT" || name == Bytes.ofString "0" then
        modifyScope ({ · with farewell := if action == ([45] : Bytes) then none else some action })
      else if events.contains name || name.all Byte.isDigit then return
      else
        let _ ← send 2 ("trap: " ++ name ++ ": bad trap\n")
        setStatus 1

end Script

end KnightLang.Shell
