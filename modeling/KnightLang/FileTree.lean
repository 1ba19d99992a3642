import KnightLang.Bytes

/-!
A tree of files with a working directory in it, as the command line sees it. Paths are split at
slashes; a dot names the directory it stands in, and two dots the one above.
-/

namespace KnightLang

/-- The names that lead to a file from the root of all files, outermost first. -/
abbrev FilePath := List Bytes

/-- The files, and the directories beside those that files lie in. -/
structure FileTree where
  files : List (FilePath × Bytes) := []
  directories : List FilePath := []
  /-- The working directory, from which paths without a leading slash start. -/
  here : FilePath := []
  deriving DecidableEq, Repr

/-- Why a file cannot be used. -/
inductive FileProblem where
  | missing
  | isDirectory
  | notDirectory
  | nameTooLong
  | invalid
  | denied
  | exists
  deriving DecidableEq, Repr

def FileProblem.message : FileProblem → Bytes
  | .missing => "no such file or directory"
  | .isDirectory => "is a directory"
  | .notDirectory => "not a directory"
  | .nameTooLong => "file name too long"
  | .invalid => "invalid argument"
  | .denied => "permission denied"
  | .exists => "file exists"

/-- What a path leads to. -/
inductive FileEntry where
  | file (contents : Bytes)
  | directory
  /-- A file without contents that forgets what is written to it. -/
  | sink
  deriving DecidableEq, Repr

namespace FileTree

/-- The names of a path, split at slashes. -/
def components : Bytes → Bytes → List Bytes
  | [], name => [name.reverse]
  | byte :: rest, name =>
    if byte == 47 then name.reverse :: components rest [] else components rest (byte :: name)

/-- The path of the file that forgets what is written to it. -/
def nullDevice : FilePath := ["dev", "null"]

def isDirectory (tree : FileTree) (path : FilePath) : Bool :=
  path.isPrefixOf tree.here || tree.directories.any (path.isPrefixOf ·) ||
    tree.files.any fun file => path.isPrefixOf file.1 && path != file.1

/-- The names in a directory, each once. -/
def names (tree : FileTree) (path : FilePath) : List Bytes :=
  let paths := tree.here :: tree.directories ++ tree.files.map Prod.fst
  let inside := paths.filterMap fun found =>
    if path.isPrefixOf found then (found.drop path.length).head? else none
  inside.eraseDups

def entry? (tree : FileTree) (path : FilePath) : Option FileEntry :=
  if path = nullDevice then some .sink
  else
    match tree.files.lookup path with
    | some contents => some (.file contents)
    | none => if tree.isDirectory path then some .directory else none

def nameLimit : Nat := 255

/-- The length that a written path has to stay below. -/
def pathLimit : Nat := 4096

/-- Follows names from a directory, or says why that is not possible. An empty name stands for a
slash that follows another one or ends the path. -/
def follow (tree : FileTree) : FilePath → List Bytes → Except FileProblem FilePath
  | sofar, [] => .ok sofar
  | sofar, name :: rest =>
    match tree.entry? sofar with
    | none => .error .missing
    | some .directory =>
      if name.isEmpty || name == ([46] : Bytes) then follow tree sofar rest
      else if name == ([46, 46] : Bytes) then follow tree sofar.dropLast rest
      else if nameLimit < name.length then .error .nameTooLong
      else follow tree (sofar ++ [name]) rest
    | some _ => .error .notDirectory

/-- Finds a path in the tree. What it leads to need not be there. -/
def locate (tree : FileTree) (path : Bytes) : Except FileProblem FilePath :=
  if path.contains 0 then .error .invalid
  else if pathLimit ≤ path.length then .error .nameTooLong
  else
    match path with
    | [] => .error .missing
    | 47 :: rest => tree.follow [] (components rest [])
    | _ => tree.follow tree.here (components path [])

/-- The place that the words of a path give, wherever they lead. -/
def place (tree : FileTree) (path : Bytes) : FilePath :=
  let start := if path.head? == some 47 then [] else tree.here
  (components path []).foldl (fun sofar name =>
    if name.isEmpty || name == ([46] : Bytes) then sofar
    else if name == ([46, 46] : Bytes) then sofar.dropLast
    else sofar ++ [name]) start

/-- The tree with further files and directories, given by their paths. -/
def extend (tree : FileTree) (files : List (Bytes × Bytes)) (directories : List Bytes) : FileTree :=
  { tree with
    files := (files.map fun file => (tree.place file.1, file.2)) ++ tree.files
    directories := directories.map tree.place ++ tree.directories }

def open? (tree : FileTree) (path : Bytes) : Except FileProblem FileEntry :=
  match tree.locate path with
  | .error problem => .error problem
  | .ok found =>
    match tree.entry? found with
    | some entry => .ok entry
    | none => .error .missing

def openFailure (path : Bytes) (problem : FileProblem) : Bytes :=
  "open " ++ path ++ ": " ++ problem.message

def readFailure (path : Bytes) (problem : FileProblem) : Bytes :=
  "read " ++ path ++ ": " ++ problem.message

/-- The place of a file that is to be written, or why it cannot be. A path that ends in a slash can
only be that of a directory. -/
def target (tree : FileTree) (path : Bytes) : Except FileProblem FilePath :=
  match tree.locate (Bytes.dropRightWhile (· == 47) path) with
  | .error problem =>
    if path.all (· == 47) && !path.isEmpty then .error .isDirectory else .error problem
  | .ok found =>
    if path.getLast? == some 47 || tree.isDirectory found then .error .isDirectory else .ok found

/-- The tree with new contents at the place of a file. -/
def put (tree : FileTree) (place : FilePath) (contents : Bytes) : FileTree :=
  if place = nullDevice then tree
  else
    { tree with files := (place, contents) :: tree.files.filter fun file => file.1 != place }

/-- Writes a file, or says why it cannot be made. -/
def write (tree : FileTree) (path contents : Bytes) : Except FileProblem FileTree :=
  match tree.target path with
  | .ok place => .ok (tree.put place contents)
  | .error problem => .error problem

/-- The contents of the file at a path, if it is one. -/
def contents? (tree : FileTree) (path : Bytes) : Option Bytes :=
  match tree.open? path with
  | .ok (.file contents) => some contents
  | _ => none

end FileTree

end KnightLang
