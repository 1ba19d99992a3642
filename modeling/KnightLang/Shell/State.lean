import KnightLang.FileTree
import KnightLang.Shell.Command

/-!
The state of a running script: its variables and functions, and the channels through which it
reads and writes.
-/

namespace KnightLang.Shell

/-- A variable, which need not have a value. -/
structure Variable where
  value : Option Bytes := none
  isExported : Bool := false
  isReadOnly : Bool := false
  deriving DecidableEq, Repr

/-- Something that channels are connected to. -/
inductive Stream where
  /-- Gives bytes until there are none left. -/
  | source (unread : Bytes)
  /-- Keeps what is written to it, the latest first. -/
  | collector (chunks : List Bytes)
  /-- A place in a file. -/
  | file (path : FilePath) (position : Nat) (access : Access)
  /-- Gives nothing and forgets what is written to it. -/
  | sink
  deriving DecidableEq, Repr

/-- How a shell words its messages and its output. -/
inductive Dialect where
  | minimal
  /-- Has options for `echo`, and more words in its messages. -/
  | extended
  deriving DecidableEq, Repr

/-- What a script can ask for with `set`. -/
structure Switches where
  /-- Ends the script at a failure that nothing looks at. -/
  stopsAtFailure : Bool := false
  /-- Refuses parameters that are not set. -/
  requiresValues : Bool := false
  /-- Leaves patterns for file names as they are. -/
  keepsPatterns : Bool := false
  /-- Shows commands before they run. -/
  showsCommands : Bool := false
  /-- Does not write over files. -/
  keepsFiles : Bool := false
  deriving DecidableEq, Repr

/-- The part of the state of which a command in parentheses has a copy of its own. -/
structure Scope where
  assigned : List (Bytes × Variable) := []
  arguments : List Bytes := []
  functions : List (Bytes × Command) := []
  /-- The streams by number to which channels are connected. -/
  channels : List (Nat × Nat) := []
  switches : Switches := {}
  /-- How many loops the script is inside of. -/
  loops : Nat := 0
  /-- For each function that the script is inside of, what its local variables hide. -/
  hidden : List (List (Bytes × Option Variable)) := []
  /-- Whether something looks at the status of the current command. -/
  isTested : Bool := false
  /-- The builtin that is running, as messages name it. -/
  builtin : Option Bytes := none
  /-- The script to run at the end. -/
  farewell : Option Bytes := none

/-- The state of a script. -/
structure ScriptState where
  /-- The name of the shell. -/
  name : Bytes
  dialect : Dialect := .minimal
  scope : Scope
  status : Nat := 0
  /-- The status of the last command inside of the words of the current one. -/
  innerStatus : Nat := 0
  /-- The line of the current command. -/
  line : Nat := 1
  files : FileTree
  streams : Array Stream := #[]
  documents : List (Nat × Word) := []
  nextDocument : Nat := 0

/-- Why commands after the current one do not run. -/
inductive Interruption where
  | exit
  /-- Leaves some loops. -/
  | leave (loops : Nat)
  /-- Goes on with the next turn of a loop, after leaving others. -/
  | again (loops : Nat)
  /-- Leaves a function. -/
  | finish
  /-- A mistake that ends the script unless a builtin made it. -/
  | failure
  deriving DecidableEq, Repr

abbrev Script := EStateM Interruption ScriptState

namespace Script

/-- Changes the part of the state that is copied for commands in parentheses. -/
def modifyScope (change : Scope → Scope) : Script Unit :=
  modify fun state => { state with scope := change state.scope }

def setStatus (status : Nat) : Script Unit := modify ({ · with status })

def stream? (channel : Nat) : Script (Option Nat) := return (← get).scope.channels.lookup channel

/-- Makes a stream, and gives its number. -/
def newStream (stream : Stream) : Script Nat := do
  let state ← get
  set { state with streams := state.streams.push stream }
  return state.streams.size

def putStream (number : Nat) (stream : Stream) : Script Unit :=
  modify fun state => { state with streams := state.streams.modify number fun _ => stream }

/-- Connects a channel to a stream, or to nothing. -/
def connect (channel : Nat) (number : Option Nat) : Script Unit :=
  modifyScope fun scope =>
    let others := scope.channels.filter (·.1 != channel)
    { scope with channels := match number with
      | some number => (channel, number) :: others
      | none => others }

/-- What a stream gives up to its end, or only up to the end of a line, and the rest of it. -/
def takeFrom (wholeLine : Bool) (unread : Bytes) : Bytes × Bytes :=
  if wholeLine then
    let line := unread.takeWhile (· != Byte.newline)
    let length := if line.length < unread.length then line.length + 1 else line.length
    (unread.take length, unread.drop length)
  else (unread, [])

/-- Takes bytes from a channel, up to its end or only up to the end of a line. -/
def receive (wholeLine : Bool) (channel : Nat) : Script Bytes := do
  match ← stream? channel with
  | none => return []
  | some number =>
    match (← get).streams[number]? with
    | some (.source unread) =>
      let (taken, left) := takeFrom wholeLine unread
      putStream number (.source left)
      return taken
    | some (.file path position access) =>
      let contents := ((← get).files.files.lookup path).getD []
      let (taken, _) := takeFrom wholeLine (contents.drop position)
      putStream number (.file path (position + taken.length) access)
      return taken
    | _ => return []

def overwrite (contents : Bytes) (position : Nat) (bytes : Bytes) : Bytes :=
  contents.take position ++ List.replicate (position - contents.length) 0 ++ bytes ++
    contents.drop (position + bytes.length)

/-- Writes bytes to a channel, and says whether that was possible. -/
def send (channel : Nat) (bytes : Bytes) : Script Bool := do
  match ← stream? channel with
  | none => return false
  | some number =>
    let state ← get
    match state.streams[number]? with
    | some (.collector chunks) =>
      putStream number (.collector (bytes :: chunks))
      return true
    | some .sink => return true
    | some (.file path position access) =>
      if access = .read then return false
      match state.files.files.lookup path with
      | none => return true
      | some contents =>
        let position := if access = .append then contents.length else position
        set { state with files := state.files.put path (overwrite contents position bytes) }
        putStream number (.file path (position + bytes.length) access)
        return true
    | _ => return false

def collected (number : Nat) : Script Bytes := do
  match (← get).streams[number]? with
  | some (.collector chunks) => return chunks.reverse.flatten
  | _ => return []

/-- Writes a message about a line to the channel for errors. -/
def warn (text : Bytes) : Script Unit := do
  let state ← get
  let line : Bytes := match state.dialect with
    | .minimal => Bytes.ofNat state.line
    | .extended => "line " ++ Bytes.ofNat state.line
  let builtin := match state.scope.builtin with
    | some name => name ++ ": "
    | none => []
  let _ ← send 2 (state.name ++ ": " ++ line ++ ": " ++ builtin ++ text ++ [Byte.newline])

def fail {α : Type} (text : Bytes) : Script α := do
  warn text
  setStatus 2
  throw .failure

def entry? (name : Bytes) : Script (Option Variable) :=
  return (← get).scope.assigned.lookup name

def value? (name : Bytes) : Script (Option Bytes) := return (← entry? name).bind Variable.value

/-- Puts a variable in the place of the one with its name, if there is one. -/
def putVariable (name : Bytes) (new : Option Variable) : Script Unit :=
  modifyScope fun scope =>
    let others := scope.assigned.filter (·.1 != name)
    { scope with assigned := match new with
      | some new => (name, new) :: others
      | none => others }

def assign (name value : Bytes) : Script Unit := do
  let old := (← entry? name).getD {}
  if old.isReadOnly then fail (name ++ ": is read only")
  putVariable name (some { old with value := some value })

def separators : Script Bytes := return (← value? "IFS").getD [32, 9, 10]

/-- Does something with a copy of the scope, and gives the status of it. Nothing leaves it but what
went through channels and into files. -/
def separately (action : Script Unit) : Script Nat := do
  let before ← get
  let inside := { before with scope := { before.scope with farewell := none, loops := 0 } }
  let after := match action inside with
    | .ok _ after | .error _ after => after
  set { after with
    scope := before.scope, line := before.line
    files := { after.files with here := before.files.here } }
  return after.status

/-- What an action writes to the standard output, run with a copy of the scope. -/
def outputOf (action : Script Unit) : Script Bytes := do
  let number ← newStream (.collector [])
  let before ← get
  let status ← separately do
    connect 1 (some number)
    action
  modify ({ · with status := before.status, innerStatus := status })
  collected number

end Script

end KnightLang.Shell
