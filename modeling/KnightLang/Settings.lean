import KnightLang.FileTree
import KnightLang.Settings.Meaning

/-!
Settings of the command line: their defaults, and the file that changes them.
-/

namespace KnightLang

/-- The settings of an invocation. -/
structure Settings where
  maxDepth : Int := 10000
  seed : Int64 := 0
  checked : Bool := false
  shell : Bytes := "sh"
  encoding : Bytes := "utf8"
  history : Bytes := []
  prompt : Bytes := "knight> "
  logLevel : Bytes := "warn"
  timeFormat : Bytes := "%Y-%m-%d %H:%M:%S"
  trace : Bool := false
  deriving DecidableEq, Repr

/-- Why settings cannot be used. -/
inductive SettingsProblem where
  | file (text : Bytes)
  | document (path : Bytes)
  | depth (path : Bytes) (limit : Int)
  deriving DecidableEq, Repr

def SettingsProblem.message : SettingsProblem → Bytes
  | .file text => text
  | .document path => "config " ++ path ++ ": yaml: unmarshal errors"
  | .depth path limit =>
    "config " ++ path ++ ": max_depth must be positive, not " ++ Bytes.ofInt limit

namespace Settings

def inDirectory (directory name : Bytes) : Bytes := directory ++ [47] ++ name

/-- The settings used without a file, given the home directory if there is one. -/
def default (home : Option Bytes) : Settings :=
  { history := (home.map fun directory => inDirectory directory ".knight_history").getD [] }

def defaultPath (home : Option Bytes) : Bytes :=
  (home.map fun directory => inDirectory directory ".knight.yaml").getD []

/-- All settings at zero or empty. -/
def zero : Settings :=
  { maxDepth := 0, shell := [], encoding := [], prompt := [], logLevel := [], timeFormat := [] }

/-- The settings with one of them changed, if it is known and its value has the right form. -/
def assign (settings : Settings) (name : Bytes) (value : Scalar) : Option Settings :=
  let isName := fun (known : String) => name == Bytes.ofString known
  if isName "max_depth" then value.toInt?.map fun limit => { settings with maxDepth := limit }
  else if isName "seed" then
    value.toInt?.map fun seed => { settings with seed := Int64.ofInt seed }
  else if isName "checked" then value.toBool?.map fun flag => { settings with checked := flag }
  else if isName "shell" then value.toText?.map fun text => { settings with shell := text }
  else if isName "encoding" then value.toText?.map fun text => { settings with encoding := text }
  else if isName "history" then value.toText?.map fun text => { settings with history := text }
  else if isName "prompt" then value.toText?.map fun text => { settings with prompt := text }
  else if isName "log_level" then value.toText?.map fun text => { settings with logLevel := text }
  else if isName "time_format" then
    value.toText?.map fun text => { settings with timeFormat := text }
  else if isName "trace" then value.toBool?.map fun flag => { settings with trace := flag }
  else none

/-- How many nodes of a document were used, and how many of them by way of an alias. -/
structure Usage where
  total : Nat := 1
  aliased : Nat := 0
  deriving DecidableEq, Repr

/-- A part of the use of a document, which may meet something that it has to refuse. -/
abbrev Use := StateT Usage Option

/-- Counts a node that is used. A document with many nodes may not consist of aliases almost
entirely. -/
def count (isAliased : Bool) : Use PUnit := do
  let usage ← get
  let usage : Usage :=
    { total := usage.total + 1, aliased := usage.aliased + if isAliased then 1 else 0 }
  if 100 < usage.aliased && 1000 < usage.total && 99 * usage.total < 100 * usage.aliased then
    failure
  set usage

def scalarAt (isAliased : Bool) : Document.Node → Use Scalar
  | .scalar scalar => do
    count isAliased
    return scalar
  | .alias (.scalar scalar) => do
    count isAliased
    count true
    return scalar
  | _ => failure

/-- Whether an entry with a name at a node stands for all entries of the mappings that are its
value. -/
def isMerge : Document.Node → Bool
  | .scalar scalar =>
    scalar.text == Bytes.ofString "<<" &&
      (scalar.isOpen || scalar.tag == Document.standardTag ++ Bytes.ofString "merge")
  | _ => false

mutual

/-- The settings with the entries of a mapping applied in order; none of them may have the name of
one before it, which `done` holds. -/
def applyEntries (isAliased : Bool) (done : List Bytes) (settings : Settings) :
    List (Document.Node × Document.Node) → Use Settings
  | [] => return settings
  | (key, value) :: rest => do
    if isMerge key then
      applyEntries isAliased done (← applyMerge isAliased true settings value) rest
    else
      match (← scalarAt isAliased key).toText? with
      | none => failure
      | some name =>
        if done.contains name then failure
        match settings.assign name (← scalarAt isAliased value) with
        | none => failure
        | some settings => applyEntries isAliased (name :: done) settings rest

/-- The settings with the value of a merging entry applied: a mapping or, where a list is allowed,
several of them. -/
def applyMerge (isAliased allowsList : Bool) (settings : Settings) : Document.Node → Use Settings
  | .mapping entries => do
    count isAliased
    applyEntries isAliased [] settings entries
  | .alias (.mapping entries) => do
    count isAliased
    count true
    applyEntries true [] settings entries
  | .sequence items => if allowsList then applyMappings isAliased settings items else failure
  | _ => failure

/-- The settings with mappings applied from the last one to the first. -/
def applyMappings (isAliased : Bool) (settings : Settings) : List Document.Node → Use Settings
  | [] => return settings
  | first :: rest => do
    applyMerge isAliased false (← applyMappings isAliased settings rest) first

end

/-- The settings with a document applied. An explicit nothing clears them all. -/
def applyNode (settings : Settings) : Document.Node → Use Settings
  | .mapping entries => do
    count false
    applyEntries false [] settings entries
  | .scalar scalar => if scalar.meaning? = some .nothing then return zero else failure
  | _ => failure

def applyFile (settings : Settings) (text : Bytes) : Option Settings :=
  match Document.parse text with
  | none => none
  | some none => some settings
  | some (some node) => (applyNode settings node).run' {}

/-- Reads the settings of a file over the defaults. A file that does not exist is passed over unless
it is required, and no path means no file. -/
def load (tree : FileTree) (home : Option Bytes) (path : Bytes) (required : Bool) :
    Except SettingsProblem Settings :=
  let defaults := default home
  if path.isEmpty then .ok defaults
  else
    let contents : Except Bytes (Option Bytes) := match tree.open? path with
      | .error .missing =>
        if required then .error (FileTree.openFailure path .missing) else .ok none
      | .error problem => .error (FileTree.openFailure path problem)
      | .ok .directory => .error (FileTree.readFailure path .isDirectory)
      | .ok .sink => .ok (some [])
      | .ok (.file contents) => .ok (some contents)
    match contents with
    | .error text => .error (.file text)
    | .ok none => .ok defaults
    | .ok (some text) =>
      match applyFile defaults text with
      | none => .error (.document path)
      | some settings =>
        if settings.maxDepth ≤ 0 then .error (.depth path settings.maxDepth) else .ok settings

end Settings

end KnightLang
