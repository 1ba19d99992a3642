import KnightLang.Shell.Expansion

/-!
How the redirections of a command connect its channels.
-/

namespace KnightLang.Shell.Script

def problemText : FileProblem → Bytes
  | .missing => "No such file or directory"
  | .isDirectory => "Is a directory"
  | .notDirectory => "Not a directory"
  | .nameTooLong => "File name too long"
  | .invalid => "Invalid argument"
  | .denied => "Permission denied"
  | .exists => "File exists"

/-- Says that a file cannot be opened. -/
def warnFile (access : Access) (path : Bytes) (problem : FileProblem) : Script Unit := do
  match (← get).dialect with
  | .minimal =>
    let (action, missing) : Bytes × Bytes :=
      if access = .read then ("open", "No such file") else ("create", "Directory nonexistent")
    let text :=
      if problem = .missing || problem = .notDirectory then missing else problemText problem
    warn ("cannot " ++ action ++ " " ++ path ++ ": " ++ text)
  | .extended => warn (path ++ ": " ++ problemText problem)

def deviceChannel? (path : FilePath) : Option Nat :=
  let devices : List (FilePath × Nat) :=
    [(["dev", "stdin"], 0), (["dev", "stdout"], 1), (["dev", "stderr"], 2)]
  devices.lookup path

/-- Opens a file to read it, or says why it cannot be used. -/
def openToRead (path : Bytes) : Script (Except FileProblem (Option Nat)) := do
  let files := (← get).files
  match files.locate path with
  | .error problem => return .error problem
  | .ok place =>
    match deviceChannel? place, files.entry? place with
    | some channel, _ => return .ok (← stream? channel)
    | none, none => return .error .missing
    | none, some (.file _) => return .ok (some (← newStream (.file place 0 .read)))
    | none, some _ => return .ok (some (← newStream .sink))

/-- Opens a file to write it, or says why it cannot be used. -/
def openToWrite (access : Access) (path : Bytes) : Script (Except FileProblem (Option Nat)) := do
  let state ← get
  match state.files.target path with
  | .error problem => return .error problem
  | .ok place =>
    match deviceChannel? place, state.files.entry? place with
    | some channel, _ => return .ok (← stream? channel)
    | none, some .sink => return .ok (some (← newStream .sink))
    | none, entry =>
      if access = .write && entry.isSome && state.scope.switches.keepsFiles then
        return .error .exists
      let clears := entry.isNone || access = .write || access = .replace
      if clears then modify fun state => { state with files := state.files.put place [] }
      let access := if access = .replace then .write else access
      return .ok (some (← newStream (.file place 0 access)))

/-- What a redirection connects its channel to, before it does so. -/
inductive Connection where
  | file (channel : Nat) (access : Access) (path : Bytes)
  | copy (channel : Nat) (source : Option Nat)
  | document (channel : Nat) (word : Word)

def prepare (runner : Runner) : Redirection → Script Connection
  | .file channel access path => return .file channel access (← textOf runner path)
  | .document channel number =>
    return .document channel (((← get).documents.lookup number).getD [])
  | .copy channel source => do
    match ← textOf runner source with
    | [45] => return .copy channel none
    | [digit] =>
      if Byte.isDigit digit then return .copy channel (some (digit.toNat - 48))
      else fail "Syntax error: Bad fd number"
    | _ => fail "Syntax error: Bad fd number"

/-- Makes a connection, and says whether that was possible. -/
def establish (runner : Runner) : Connection → Script Bool
  | .file channel access path => do
    match ← if access = .read then openToRead path else openToWrite access path with
    | .ok number =>
      connect channel number
      return true
    | .error problem =>
      warnFile access path problem
      return false
  | .document channel word => do
    let contents := bytesOf (← runner.fill word)
    connect channel (some (← newStream (.source contents)))
    return true
  | .copy channel none => do
    connect channel none
    return true
  | .copy channel (some source) => do
    match ← stream? source with
    | some number =>
      connect channel (some number)
      return true
    | none =>
      if channel != 2 then warn (Bytes.ofNat source ++ ": Bad file descriptor")
      return false

/-- Makes connections in order up to the first that is not possible. -/
def establishAll (runner : Runner) : List Connection → Script Bool
  | [] => return true
  | connection :: rest => do
    if ← establish runner connection then establishAll runner rest else return false

/-- Does something with redirections, after which the channels are as before. Gives nothing if a
redirection is not possible, with the status for that. -/
def redirecting {α : Type} (runner : Runner) (redirections : List Redirection)
    (action : Script α) : Script (Option α) := do
  let before := (← get).scope.channels
  let connections ← redirections.mapM (prepare runner)
  if ← establishAll runner connections then
    let result ← tryCatch action fun stopped => do
      modifyScope ({ · with channels := before })
      throw stopped
    modifyScope ({ · with channels := before })
    return some result
  else
    modifyScope ({ · with channels := before })
    setStatus (if (← get).dialect = .minimal then 2 else 1)
    return none

end KnightLang.Shell.Script
