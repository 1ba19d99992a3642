import KnightLang.Shell.Builtins

/-!
How scripts run. Each command is run by a step that leaves the commands inside of it to a runner,
and running ties the two together.
-/

namespace KnightLang.Shell

namespace Script

def tested (action : Script Unit) : Script Bool := do
  let before := (← get).scope.isTested
  let restore := modifyScope ({ · with isTested := before })
  modifyScope ({ · with isTested := true })
  tryCatch action fun stopped => do
    restore
    throw stopped
  restore
  return (← get).status == 0

/-- Ends the script after a failure if it asks for that and nothing looks at the status. -/
def checkFailure : Script Unit := do
  let state ← get
  if state.status != 0 && state.scope.switches.stopsAtFailure && !state.scope.isTested then
    throw .exit

/-- Runs a turn of a loop, and says whether there may be another one. -/
def turnOf (action : Script Unit) : Script Bool := do
  modifyScope fun scope => { scope with loops := scope.loops + 1 }
  let leaveLoop := modifyScope fun scope => { scope with loops := scope.loops - 1 }
  tryCatch (do action; leaveLoop; return true) fun stopped => do
    leaveLoop
    match stopped with
    | .leave 1 => return false
    | .leave count => throw (.leave (count - 1))
    | .again 1 => return true
    | .again count => throw (.again (count - 1))
    | stopped => throw stopped

def runEach (runner : Runner) (name : Bytes) (body : Command) : List Bytes → Script Unit
  | [] => return
  | value :: values => do
    assign name value
    if ← turnOf (runner.run body) then runEach runner name body values

/-- The steps that a script may take inside of one another, and the turns of a loop. -/
def depthLimit : Nat := 1000000000

/-- Runs a body as long as its condition goes on, and gives the status of its last turn. -/
def runLoop (runner : Runner) (whileFailing : Bool) (condition body : Command) :
    Nat → Nat → Script Unit
  | 0, _ => throw .exit
  | fuel + 1, last => do
    let goesOn ← turnOf do
      if (← tested (runner.run condition)) != whileFailing then runner.run body
      else
        setStatus last
        throw (.leave 1)
    if goesOn then runLoop runner whileFailing condition body fuel (← get).status

def matchingArm (runner : Runner) (text : Bytes) :
    List (List Word × Command) → Script (Option Command)
  | [] => return none
  | (patterns, body) :: arms => do
    let isMatch ← patterns.anyM fun pattern => do
      let glyphs := glyphsOf (← fillWord runner pattern)
      return Pattern.accepts (Pattern.ofGlyphs glyphs) text
    if isMatch then return some body else matchingArm runner text arms

/-- Runs the commands of a text one after the other, and sets the status if there are none. The
fuel bounds their number. -/
def runText (runner : Runner) : Bool → Nat → ScriptText → Script Unit
  | _, 0, _ => return
  | hasRun, fuel + 1, text => do
    let state ← get
    match readCommand { text with nextDocument := state.nextDocument, documents := [] } with
    | .error (line, problem) =>
      modify ({ · with line })
      fail ("Syntax error: " ++ problem.message)
    | .ok none => unless hasRun do setStatus 0
    | .ok (some (body, after)) =>
      modify fun state => { state with
        nextDocument := after.nextDocument, documents := after.documents ++ state.documents }
      runner.run body
      runText runner (hasRun || !(body matches .nothing)) fuel after

/-- Runs the commands of a text from its first line on. -/
def runWhole (runner : Runner) (script : Bytes) : Script Unit := do
  let line := (← get).line
  runText runner false (script.length + 1) (.whole script)
  modify ({ · with line })

/-- Does something, and then what it wants to be run at its end. That keeps its status unless it
ends with another one. -/
def toTheEnd (runner : Runner) (action : Script Unit) : Script Unit := do
  tryCatch action fun _ => return
  let state ← get
  match state.scope.farewell with
  | some farewell =>
    modifyScope ({ · with farewell := none })
    let goodbye : Script Unit := do
      runWhole runner farewell
      setStatus state.status
    tryCatch goodbye fun _ => return
  | none => return

/-- Runs the commands of a pipeline one after the other. Each gets what the one before it wrote. -/
def runStages (runner : Runner) : Option Bytes → List Command → Script Unit
  | _, [] => return
  | input, stage :: later => do
    let number ← newStream (.collector [])
    let status ← separately do
      match input with
      | some bytes => connect 0 (some (← newStream (.source bytes)))
      | none => pure ()
      unless later.isEmpty do connect 1 (some number)
      toTheEnd runner (runner.run stage)
    setStatus status
    unless later.isEmpty do runStages runner (some (← collected number)) later

/-- Does something under the name of a builtin, which its messages show. -/
def named {α : Type} (name : Bytes) (action : Script α) : Script α := do
  let before := (← get).scope.builtin
  let restore := modifyScope ({ · with builtin := before })
  modifyScope ({ · with builtin := some name })
  let result ← tryCatch action fun stopped => do
    restore
    throw stopped
  restore
  return result

def callLimit : Nat := 1000

/-- Calls a function. Its arguments and local variables are its own. -/
def call (runner : Runner) (body : Command) (arguments : List Bytes) : Script Unit := do
  let before := (← get).scope
  if callLimit ≤ before.hidden.length then
    fail ("Maximum function recursion depth (" ++ Bytes.ofNat callLimit ++ ") reached")
  modifyScope fun scope =>
    { scope with arguments, loops := 0, hidden := [] :: scope.hidden }
  let leaveCall : Script Unit := do
    let hidden := (← get).scope.hidden.headD []
    modifyScope fun scope => { scope with
      arguments := before.arguments, loops := before.loops, hidden := before.hidden }
    hidden.forM fun (name, old) => putVariable name old
  tryCatch (runner.run body) fun stopped => do
    match stopped with
    | .finish => return
    | stopped =>
      leaveCall
      throw stopped
  leaveCall

/-- The scope that a new shell starts with: the channels, and the variables that programs see. -/
def freshScope (scope : Scope) : Scope :=
  { assigned := scope.assigned.filter fun entry => entry.2.isExported
    channels := scope.channels }

/-- What a shell is asked to run: a text under a name, a file, or its input. -/
inductive Task where
  | text (script : Bytes) (name : Option Bytes) (arguments : List Bytes)
  | file (path : Bytes) (arguments : List Bytes)
  | input
  deriving DecidableEq, Repr

/-- The task that arguments give a shell, or the complaint about them. Options come first, and one
of them says that the first other argument is the script. -/
def taskOf (isText : Bool) : List Bytes → Except Bytes Task
  | [] => if isText then .error "-c requires an argument" else .ok .input
  | argument :: rest =>
    let operand := fun (arguments : List Bytes) => match arguments with
      | [] => if isText then Except.error "-c requires an argument" else .ok .input
      | first :: rest =>
        .ok (if isText then .text first rest.head? rest.tail else .file first rest)
    match argument with
    | [45] | [45, 45] => operand rest
    | 45 :: letters | 43 :: letters =>
      let isUnknown (letter : UInt8) :=
        letter != 99 && letter != 108 && (switch? true letter {}).isNone
      match letters.find? isUnknown with
      | some letter => .error ("Illegal option -" ++ [letter])
      | none => taskOf (isText || letters.contains 99) rest
    | _ => operand (argument :: rest)

def startTask (runner : Runner) (arguments : List Bytes) : Script Unit := do
  let complain := fun (text : Bytes) => do
    modify ({ · with line := 0 })
    fail text
  let run := fun (name : Option Bytes) (script : Bytes) (arguments : List Bytes) => do
    modify fun state => { state with name := name.getD state.name }
    modifyScope ({ · with arguments })
    runWhole runner script
  match taskOf false arguments with
  | .error text => complain text
  | .ok .input => run none (← receive false 0) []
  | .ok (.text script name arguments) => run name script arguments
  | .ok (.file path arguments) =>
    match (← get).files.contents? path with
    | some script => run (some path) script arguments
    | none => complain ("cannot open " ++ path ++ ": No such file")

def runShell (runner : Runner) (name : Bytes) (dialect : Dialect) (arguments : List Bytes) :
    Script Unit := do
  let before ← get
  let status ← separately do
    modify fun state => { state with
      name, dialect, scope := freshScope state.scope, status := 0, line := 1 }
    toTheEnd runner (startTask runner arguments)
  modify ({ · with name := before.name, dialect := before.dialect })
  setStatus status

/-- Says that a command cannot be run, and gives the status for that. -/
def refuseCommand (name text : Bytes) (status : Nat) : Script Unit := do
  let text := match (← get).dialect, status with
    | .extended, 127 =>
      if name.contains 47 then "No such file or directory" else "command not found"
    | _, _ => text
  warn (name ++ ": " ++ text)
  setStatus status

def runProgram (runner : Runner) (name : Bytes) (arguments : List Bytes) : Script Unit := do
  let start := fun (program : Program) => match program with
    | .shell dialect => runShell runner name dialect arguments
    | program => do
      let status ← separately (program.run arguments)
      setStatus status
  if name.isEmpty then refuseCommand name "Permission denied" 127
  else if name.contains 47 then
    let files := (← get).files
    match files.locate name with
    | .error _ => refuseCommand name "not found" 127
    | .ok found =>
      match Program.at? found, files.entry? found with
      | some program, _ => start program
      | none, some _ => refuseCommand name "Permission denied" 126
      | none, none => refuseCommand name "not found" 127
  else
    match Program.all.lookup name, (← get).files.open? (Program.foundPath name) with
    | some program, _ => start program
    | none, .ok .directory => refuseCommand name "Permission denied" 126
    | none, _ => refuseCommand name "not found" 127

/-- Gives a text to the variables of some assignments while something is done. -/
def assigning (values : List (Bytes × Bytes)) (action : Script Unit) : Script Unit := do
  let before ← values.mapM fun (name, _) => return (name, ← entry? name)
  let restore := before.forM fun (name, old) => putVariable name old
  values.forM fun (name, value) => do
    assign name value
    let new := (← entry? name).getD {}
    putVariable name (some { new with isExported := true })
  tryCatch action fun stopped => do
    restore
    throw stopped
  restore

def perform (runner : Runner) (builtin : Builtin) (name : Bytes) (arguments : List Bytes) :
    Script Unit := do
  let last := (← get).status
  setStatus 0
  match builtin with
  | .nothing status => setStatus status
  | .echo =>
    let dialect := (← get).dialect
    print (if dialect = .minimal then echo arguments else optionEcho arguments)
  | .printf => performPrintf arguments
  | .test => performTest name arguments
  | .changeDirectory => performChange arguments
  | .printDirectory => print (directoryText (← get).files ++ [Byte.newline])
  | .read => performRead arguments
  | .set => performSet arguments
  | .shift => performShift arguments
  | .unset => performUnset arguments
  | .mark readOnly => performMark readOnly arguments
  | .makeLocal => performLocal arguments
  | .leave goesOn => performLeave goesOn arguments
  | .finish => performEnd .finish last arguments
  | .exit => performEnd .exit last arguments
  | .evaluate =>
    unless arguments.isEmpty do
      setStatus last
      runWhole runner (spaced arguments)
  | .source =>
    match arguments with
    | [] => return
    | path :: _ =>
      unless path.contains 47 do fail (path ++ ": not found")
      match (← get).files.open? path with
      | .ok (.file script) =>
        setStatus last
        tryCatch (runWhole runner script) fun stopped => do
          unless stopped = .finish do throw stopped
      | .ok _ => return
      | .error _ => fail ("cannot open " ++ path ++ ": No such file")
  | .execute =>
    match arguments with
    | [] => return
    | program :: arguments =>
      runProgram runner program arguments
      modifyScope ({ · with farewell := none })
      throw .exit
  | .command =>
    match arguments with
    | [] => return
    | [45, 118] :: names => names.take 1 |>.forM (describe true)
    | [45, 86] :: names => names.take 1 |>.forM (describe false)
    | _ => return
  | .type => arguments.forM (describe false)
  | .trap => performTrap arguments
  | .mask => print "0022\n"

/-- Performs a builtin under its name; a mistake ends the script only for special ones. -/
def performNamed (runner : Runner) (builtin : Builtin) (name : Bytes) (arguments : List Bytes)
    (isSpecial : Bool) : Script Unit :=
  tryCatch (named name (perform runner builtin name arguments)) fun stopped => do
    match stopped with
    | .failure => if isSpecial then throw .failure
    | stopped => throw stopped

def assigningBuiltins : List Bytes := ["export", "readonly", "local"]

/-- The words of a command after those found so far, which are given the latest first. Words that
assign to variables of a builtin are not divided. -/
def commandWords (runner : Runner) : List Bytes → List Word → Script (List Bytes)
  | found, [] => return found.reverse
  | found, word :: words => do
    let assigns := match found.getLast? with
      | some name => assigningBuiltins.contains name
      | none => false
    match (if assigns then Parser.assignment? word else none) with
    | some (name, value) =>
      let text ← assignedText runner value
      commandWords runner ((name ++ 61 :: text) :: found) words
    | none => commandWords runner ((← wordsOf runner word).reverse ++ found) words

/-- Shows a command before it runs, if the script asks for that. -/
def showCommand (words : List Bytes) : Script Unit := do
  if (← get).scope.switches.showsCommands then
    let _ ← send 2 ((← value? "PS4").getD "+ " ++ spaced words ++ [Byte.newline])

/-- The value of each assignment, in which the ones before it count. -/
def assignedValues (runner : Runner) (assignments : List (Bytes × Word)) :
    Script (List (Bytes × Bytes)) :=
  assignments.mapM fun (name, word) => return (name, ← assignedText runner word)

/-- Runs a command by name: a function, a builtin or a program. -/
def runNamed (runner : Runner) (values : List (Bytes × Bytes)) (usesFunctions : Bool)
    (name : Bytes) (arguments : List Bytes) : Script Unit := do
  let functions := (← get).scope.functions
  let function? := if usesFunctions then functions.lookup name else none
  match function?, Builtin.all.lookup name with
  | some body, _ => assigning values (call runner body arguments)
  | none, some builtin =>
    if Builtin.isSpecial name && usesFunctions then
      values.forM fun (name, value) => assign name value
      performNamed runner builtin name arguments true
    else assigning values (performNamed runner builtin name arguments false)
  | none, none => assigning values (runProgram runner name arguments)

def runSimple (runner : Runner) (assignments : List (Bytes × Word)) (words : List Word)
    (redirections : List Redirection) : Script Unit := do
  modify ({ · with innerStatus := 0 })
  let words ← commandWords runner [] words
  match words with
  | [] =>
    let _ ← redirecting runner redirections do
      assignments.forM fun (name, word) => do
        let value ← assignedText runner word
        assign name value
        showCommand [name ++ 61 :: value]
      setStatus (← get).innerStatus
  | name :: arguments =>
    let usesFunctions := name != Bytes.ofString "command" ||
      (arguments.headD []).head? == some 45 || arguments.isEmpty
    let (name, arguments) :=
      if usesFunctions then (name, arguments) else (arguments.headD [], arguments.tail)
    let isSpecial := Builtin.isSpecial name && usesFunctions
    let keepsChannels := name == Bytes.ofString "exec" && arguments.isEmpty
    if keepsChannels then
      let connections ← redirections.mapM (prepare runner)
      if ← establishAll runner connections then setStatus 0
      else
        setStatus 2
        throw .failure
    else
      let done ← redirecting runner redirections do
        let values ← assignedValues runner assignments
        showCommand ((values.map fun (name, value) => name ++ 61 :: value) ++ words)
        runNamed runner values usesFunctions name arguments
      if done.isNone && isSpecial then throw .failure

/-- Runs a command that may not be there, which is a success. -/
def runIfAny (runner : Runner) (command : Command) : Script Unit := do
  if command matches .nothing then setStatus 0 else runner.run command

/-- Runs a command, given how to run those inside of it. -/
def step (runner : Runner) (command : Command) : Script Unit := do
  match command with
  | .nothing => return
  | .simple line assignments words redirections =>
    modify ({ · with line })
    runSimple runner assignments words redirections
    checkFailure
  | .redirected line body redirections =>
    modify ({ · with line })
    let _ ← redirecting runner redirections (runner.run body)
    checkFailure
  | .separate body =>
    setStatus (← separately (toTheEnd runner (runner.run body)))
    checkFailure
  | .background body =>
    let _ ← separately do
      connect 0 (some (← newStream .sink))
      toTheEnd runner (runner.run body)
    setStatus 0
  | .pipeline stages =>
    runStages runner none stages
    checkFailure
  | .inverted body =>
    let succeeded ← tested (runner.run body)
    setStatus (if succeeded then 1 else 0)
  | .sequence first second =>
    runner.run first
    runner.run second
  | .both first second => if ← tested (runner.run first) then runner.run second
  | .either first second => unless ← tested (runner.run first) do runner.run second
  | .choice condition yes no =>
    if ← tested (runner.run condition) then runner.run yes
    else runIfAny runner no
  | .loop whileFailing condition body => runLoop runner whileFailing condition body depthLimit 0
  | .each line name words body =>
    modify ({ · with line })
    let values := (← words.mapM (wordsOf runner)).flatten
    if values.isEmpty then setStatus 0
    runEach runner name body values
  | .select line word arms =>
    modify ({ · with line })
    let text ← textOf runner word
    let arm ← matchingArm runner text arms
    runIfAny runner (arm.getD .nothing)
  | .define name body =>
    modifyScope fun scope =>
      { scope with functions := (name, body) :: scope.functions.filter (·.1 != name) }
    setStatus 0

mutual

/-- Runs a command; the fuel bounds how deep commands and words lie in one another. -/
def run : Nat → Command → Script Unit
  | 0, _ => throw .exit
  | fuel + 1, command => step { run := run fuel, fill := fill fuel } command

def fill : Nat → Word → Script (List Mark)
  | 0, _ => throw .exit
  | fuel + 1, word => fillParts { run := run fuel, fill := fill fuel } word

end

/-- What a script leaves behind. -/
structure Ending where
  output : Bytes
  errors : Bytes
  files : FileTree
  deriving DecidableEq, Repr

def runToEnd (arguments : List Bytes) : Script Unit :=
  let runner : Runner := { run := run depthLimit, fill := fill depthLimit }
  toTheEnd runner (startTask runner arguments)

def ending (state : ScriptState) (action : Script Unit) : Ending :=
  let start := { state with
    scope := { state.scope with channels := [(0, 0), (1, 1), (2, 2)] }
    streams := #[.sink, .collector [], .collector []] }
  let after := match action start with
    | .ok _ after | .error _ after => after
  let written := fun (number : Nat) => match after.streams.getD number .sink with
    | .collector chunks => chunks.reverse.flatten
    | _ => []
  { output := written 1, errors := written 2
    files := { after.files with here := state.files.here } }

def start (name : Bytes) (dialect : Dialect) (home : Option Bytes) (files : FileTree) :
    ScriptState :=
  let exported := fun (name value : Bytes) =>
    (name, ({ value := some value, isExported := true } : Variable))
  let plain := fun (name value : Bytes) => (name, ({ value := some value } : Variable))
  let homes := match home with
    | some home => [exported "HOME" home]
    | none => []
  { name, dialect, files
    scope.assigned := homes ++ [exported "PATH" "/usr/local/bin:/usr/bin:/bin",
      exported "PWD" (directoryText files), plain "IFS" [32, 9, 10], plain "OPTIND" "1",
      plain "PS4" "+ "] }

end Script

end KnightLang.Shell
