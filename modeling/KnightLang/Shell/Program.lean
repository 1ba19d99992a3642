import KnightLang.Shell.Channels
import KnightLang.Shell.TextTools

/-!
The programs that scripts can start.
-/

namespace KnightLang.Shell

/-- A program that can be started. -/
inductive Program where
  | shell (dialect : Dialect)
  /-- Does nothing and ends with a status. -/
  | nothing (status : Nat)
  | echo
  | sleep
  | cat
  | wc
  | head
  | tail
  | sort
  | tr
  | seq
  | ls
  | touch
  | rm
  | mkdir
  deriving DecidableEq, Repr

namespace Program

def all : List (Bytes × Program) :=
  [("sh", .shell .minimal), ("dash", .shell .minimal), ("bash", .shell .extended),
    ("true", .nothing 0), ("false", .nothing 1), ("echo", .echo), ("sleep", .sleep), ("cat", .cat),
    ("wc", .wc), ("head", .head), ("tail", .tail), ("sort", .sort),
    ("tr", .tr), ("seq", .seq), ("ls", .ls), ("touch", .touch), ("rm", .rm), ("mkdir", .mkdir)]

def name (program : Program) : Bytes :=
  ((all.find? fun entry => entry.2 == program).map Prod.fst).getD []

def directories : List FilePath := [["usr", "bin"], ["bin"]]

def at? (place : FilePath) : Option Program :=
  match place.getLast? with
  | some name => if directories.contains place.dropLast then all.lookup name else none
  | none => none

/-- The path under which a program is found by its name. -/
def foundPath (name : Bytes) : Bytes := "/usr/bin/" ++ name

/-- Complains, which makes the status 1. -/
def complain (program : Program) (text : Bytes) : Script Unit := do
  let _ ← Script.send 2 (program.name ++ ": " ++ text ++ [Byte.newline])
  Script.setStatus 1

def refuse (program : Program) (text : Bytes) : Script Unit :=
  program.complain
    (text ++ "\nTry '" ++ program.name ++ " --help' for more information.")

/-- The letters of options and the operands among arguments, or the complaint about an argument
that is neither. Two hyphens end the options. -/
def splitLetters (known : Bytes) : List Bytes → Except Bytes (Bytes × List Bytes)
  | [] => .ok ([], [])
  | argument :: rest =>
    match argument with
    | [45, 45] => .ok ([], rest)
    | 45 :: 45 :: _ => .error ("unrecognized option '" ++ argument ++ "'")
    | 45 :: letter :: letters =>
      match (letter :: letters).find? fun letter => !known.contains letter with
      | some letter => .error ("invalid option -- '" ++ [letter] ++ "'")
      | none => do
        let (others, operands) ← splitLetters known rest
        return (letter :: letters ++ others, operands)
    | _ => do
      let (letters, operands) ← splitLetters known rest
      return (letters, argument :: operands)

/-- A path as messages show it: an empty one in quotes. -/
def shown (path : Bytes) : Bytes := if path.isEmpty then "''" else path

/-- The bytes of a file or of the standard input, or a problem. -/
def contentsOf (path : Bytes) : Script (Except FileProblem Bytes) := do
  if path == ([45] : Bytes) then return .ok (← Script.receive false 0)
  else
    let files := (← get).files
    match files.locate path with
    | .error problem => return .error problem
    | .ok found =>
      if Script.deviceChannel? found == some 0 then return .ok (← Script.receive false 0)
      else
        match files.entry? found with
        | none => return .error .missing
        | some .directory => return .error .isDirectory
        | some .sink => return .ok []
        | some (.file contents) => return .ok contents

def concatenate : List Bytes → Script Unit
  | [] => return
  | path :: rest => do
    match ← contentsOf path with
    | .ok contents =>
      let _ ← Script.send 1 contents
    | .error problem => complain .cat (shown path ++ ": " ++ Script.problemText problem)
    concatenate rest

def column (width number : Nat) : Bytes := Fitting.pad { width } (Bytes.ofNat number)

/-- Whether the standard input or a path is something other than a file with contents. -/
def isUnmeasured (path : Bytes) : Script Bool := do
  let state ← get
  if path == ([45] : Bytes) then
    match ← Script.stream? 0 with
    | some number => return !(state.streams.getD number .sink matches .file ..)
    | none => return true
  else return !(state.files.open? path matches .ok (.file _))

/-- Counts lines, words and bytes. -/
def writeCounts (letters : Bytes) (operands : List Bytes) : Script Unit := do
  let letters : Bytes := if letters.isEmpty then "lwc" else letters
  let paths := if operands.isEmpty then [([45] : Bytes)] else operands
  let isUnknown ← paths.anyM isUnmeasured
  let texts ← paths.mapM fun path => return (path, ← contentsOf path)
  let kinds := ([108, 119, 109, 99] : Bytes).filter letters.contains
  let counts := fun (text : Bytes) => kinds.map fun kind =>
    if kind == 108 then text.count Byte.newline
    else if kind == 119 then TextTools.wordCount false text
    else text.length
  let found := texts.map fun (_, result) => result.toOption.getD []
  let sizes := found.foldl (fun total text => total + text.length) 0
  let totals := found.foldl (fun totals text => totals.zipWith (· + ·) (counts text))
    (kinds.map fun _ => 0)
  let width :=
    if kinds.length == 1 && paths.length == 1 then 1
    else if isUnknown then 7
    else (Bytes.ofNat sizes).length
  let line := fun (numbers : List Nat) (label : Bytes) => do
    let columns := spaced (numbers.map (column width))
    let _ ← Script.send 1 (columns ++ (if label.isEmpty then [] else 32 :: label) ++ [Byte.newline])
  texts.forM fun (path, result) => do
    let label := if operands.isEmpty then [] else path
    match result with
    | .ok text => line (counts text) label
    | .error problem =>
      complain .wc (shown path ++ ": " ++ Script.problemText problem)
      if problem = .isDirectory then line (counts []) label
  if 1 < paths.length then line totals "total"

/-- A portion with a new size, or the complaint about it. -/
def resized (portion : TextTools.Portion) (inBytes : Bool) (text : Bytes) :
    Except Bytes TextTools.Portion :=
  let kind : Bytes := if inBytes then "bytes" else "lines"
  match Numeral.count? text with
  | some count => .ok { portion with inBytes, count }
  | none => .error ("invalid number of " ++ kind ++ ": '" ++ text ++ "'")

/-- The portion that arguments ask for and their operands, or a complaint. -/
def portionOf : TextTools.Portion → List Bytes → Except Bytes (TextTools.Portion × List Bytes)
  | portion, [] => .ok (portion, [])
  | portion, [45, 45] :: rest => .ok (portion, rest)
  | portion, [45, 110] :: text :: rest => do portionOf (← resized portion false text) rest
  | portion, [45, 99] :: text :: rest => do portionOf (← resized portion true text) rest
  | portion, (45 :: letter :: text) :: rest =>
    if letter == 110 || letter == 99 then
      if text.isEmpty then .error ("option requires an argument -- '" ++ [letter] ++ "'")
      else do portionOf (← resized portion (letter == 99) text) rest
    else if Byte.isDigit letter then do portionOf (← resized portion false (letter :: text)) rest
    else .error ("invalid option -- '" ++ [letter] ++ "'")
  | portion, argument :: rest => do
    let (portion, operands) ← portionOf portion rest
    return (portion, argument :: operands)

/-- Writes portions of texts, under titles if there are several. -/
def writePortions (program : Program) (portion : TextTools.Portion) (paths : List Bytes) :
    Script Unit := do
  let isTitled := 1 < paths.length
  let _ ← paths.foldlM (fun (isFirst : Bool) path => do
    let title : Bytes := if path == ([45] : Bytes) then "standard input" else path
    let heading := (if isFirst then [] else [Byte.newline]) ++ "==> " ++ title ++ " <==\n"
    match ← contentsOf path with
    | .ok text =>
      let _ ← Script.send 1 ((if isTitled then heading else []) ++ portion.of text)
      return false
    | .error .isDirectory =>
      if isTitled then
        let _ ← Script.send 1 heading
      complain program ("error reading '" ++ path ++ "': " ++ Script.problemText .isDirectory)
      return false
    | .error problem =>
      complain program
        ("cannot open '" ++ path ++ "' for reading: " ++ Script.problemText problem)
      return isFirst) true

def sortTexts (letters : Bytes) (paths : List Bytes) : Script Unit := do
  let texts ← paths.mapM fun path => return (path, ← contentsOf path)
  match texts.find? fun entry => entry.2 matches .error _ with
  | some (path, .error problem) =>
    complain .sort ("cannot read: " ++ shown path ++ ": " ++ Script.problemText problem)
    Script.setStatus 2
  | _ =>
    let closed := texts.flatMap fun (_, result) =>
      let text := result.toOption.getD []
      if text.isEmpty || text.getLast? == some Byte.newline then text else text ++ [Byte.newline]
    let order : TextTools.LineOrder :=
      { byNumber := letters.contains 110, isReversed := letters.contains 114
        onlyDistinct := letters.contains 117 }
    let _ ← Script.send 1 (TextTools.sort order closed)

def exchangeBytes (letters : Bytes) (operands : List Bytes) : Script Unit := do
  let how : TextTools.Exchange :=
    { isInverted := letters.contains 99 || letters.contains 67
      deletes := letters.contains 100, squeezes := letters.contains 115 }
  let set := fun (text : Bytes) => TextTools.members (text.length + 1) text
  let exchange := fun (taken given : Bytes) => do
    match set taken, set given with
    | .error range, _ | _, .error range =>
      complain .tr ("range-endpoints of '" ++ range ++
        "' are in reverse collating sequence order")
    | .ok taken, .ok given =>
      let text ← Script.receive false 0
      let _ ← Script.send 1 (TextTools.exchange how taken given text)
  match operands with
  | [] => refuse .tr "missing operand"
  | [taken] =>
    if how.deletes != how.squeezes then exchange taken []
    else
      refuse .tr ("missing operand after '" ++ taken ++
        "'\nTwo strings must be given when " ++
        (if how.deletes then Bytes.ofString "both deleting and squeezing repeats." else
          "translating."))
  | [taken, given] =>
    if how.deletes && !how.squeezes then
      refuse .tr ("extra operand '" ++ given ++
        "'\nOnly one string may be given when deleting without squeezing repeats.")
    else if given.isEmpty && !how.deletes then
      complain .tr "when not truncating set1, string2 must be non-empty"
    else exchange taken given
  | _ :: _ :: extra :: _ => refuse .tr ("extra operand '" ++ extra ++ "'")

/-- The numbers from a first one on, in steps, that are not past a last one; the fuel bounds how
many there are. -/
def numbers (step last : Int) : Nat → Int → List Int
  | 0, _ => []
  | fuel + 1, first =>
    if (0 < step && last < first) || (step < 0 && first < last) then []
    else first :: numbers step last fuel (first + step)

/-- Writes the numbers from a first one to a last one. -/
def writeNumbers (operands : List Bytes) : Script Unit := do
  let number := fun (text : Bytes) => match Decimal.sign text with
    | (isNegative, digits) =>
      if digits.isEmpty || !digits.all Byte.isDigit then none
      else
        let size : Int := Decimal.value digits
        some (if isNegative then -size else size)
  let write := fun (first step last : Int) => do
    let count := ((last - first).natAbs / step.natAbs) + 1
    let found := numbers step last count first
    let _ ← Script.send 1 (found.flatMap fun value => Bytes.ofInt value ++ [Byte.newline])
  match (operands.take 3).find? fun operand => (number operand).isNone with
  | some operand => refuse .seq ("invalid floating point argument: '" ++ operand ++ "'")
  | none =>
    match operands.filterMap number with
    | [] => refuse .seq "missing operand"
    | [last] => write 1 1 last
    | [first, last] => write first 1 last
    | [first, step, last] =>
      if step = 0 then
        refuse .seq ("invalid Zero increment value: '" ++ operands.getD 1 [] ++ "'")
      else write first step last
    | _ => refuse .seq ("extra operand '" ++ operands.getD 3 [] ++ "'")

/-- The names in a directory in order; those with a dot in front only if asked for. -/
def listing (letters : Bytes) (files : FileTree) (path : FilePath) : List Bytes :=
  let names := (files.names path).filter fun name =>
    name.head? != some 46 || letters.contains 97 || letters.contains 65
  let names := if letters.contains 97 then ([[46], [46, 46]] : List Bytes) ++ names else names
  let sorted := names.mergeSort fun left right => !(right < left)
  if letters.contains 114 then sorted.reverse else sorted

/-- Writes the names of files, and then those in directories. -/
def listPaths (letters : Bytes) (paths : List Bytes) : Script Unit := do
  let files := (← get).files
  let sorted := paths.mergeSort fun left right => !(right < left)
  let entries := sorted.map fun path => (path, files.open? path, files.locate path)
  entries.forM fun (path, entry, _) => do
    match entry with
    | .error problem =>
      complain .ls ("cannot access '" ++ path ++ "': " ++ Script.problemText problem)
      Script.setStatus 2
    | .ok _ => return
  let isDirectory := fun (entry : Except FileProblem FileEntry) =>
    entry matches .ok .directory && !letters.contains 100
  let plain := entries.filter fun (_, entry, _) =>
    !(entry matches .error _) && !isDirectory entry
  let _ ← Script.send 1 (plain.flatMap fun (path, _) => path ++ [Byte.newline])
  let directories := entries.filter fun (_, entry, _) => isDirectory entry
  let blocks := directories.map fun (path, _, place) =>
    let names := listing letters files (place.toOption.getD [])
    let title := if 1 < paths.length then path ++ ":\n" else []
    title ++ names.flatMap fun name => name ++ [Byte.newline]
  let text := Bytes.joinWith [Byte.newline] blocks
  let _ ← Script.send 1 (if plain.isEmpty || blocks.isEmpty then text else Byte.newline :: text)

def touchPath (path : Bytes) : Script Unit := do
  let files := (← get).files
  match files.open? path with
  | .ok _ => return
  | .error _ =>
    match files.write path [] with
    | .ok files => modify ({ · with files })
    | .error problem =>
      complain .touch ("cannot touch '" ++ path ++ "': " ++ Script.problemText problem)

/-- Removes a file, or a directory with everything in it. -/
def removePath (letters : Bytes) (path : Bytes) : Script Unit := do
  let files := (← get).files
  let fail := fun (problem : FileProblem) =>
    complain .rm ("cannot remove '" ++ path ++ "': " ++ Script.problemText problem)
  let isDeep := letters.contains 114 || letters.contains 82
  match files.open? path, files.locate path with
  | .ok .directory, .ok place =>
    if !isDeep then fail .isDirectory
    else
      let isOutside := fun (other : FilePath) => !place.isPrefixOf other
      modify ({ · with files := { files with
        files := files.files.filter fun file => isOutside file.1
        directories := place.dropLast :: files.directories.filter isOutside } })
  | .ok (.file _), .ok place =>
    modify ({ · with files := { files with
      files := files.files.filter fun file => file.1 != place
      directories := place.dropLast :: files.directories } })
  | .error problem, _ | _, .error problem =>
    unless letters.contains 102 && problem = .missing do fail problem
  | .ok .sink, .ok _ => return

def makePath (letters : Bytes) (path : Bytes) : Script Unit := do
  let files := (← get).files
  let fail := fun (problem : FileProblem) =>
    complain .mkdir ("cannot create directory '" ++ path ++ "': " ++ Script.problemText problem)
  let make := fun (_ : Unit) => modify ({ · with files := files.extend [] [path] })
  match files.open? path with
  | .ok entry =>
    unless letters.contains 112 && entry = .directory do fail .exists
  | .error problem =>
    if letters.contains 112 && problem = .missing && !path.isEmpty then make ()
    else
      match files.locate (Bytes.dropRightWhile (· == 47) path) with
      | .ok _ => make ()
      | .error problem => fail problem

/-- Runs a program that is no shell with the letters of its options and its operands. -/
def runPlain (program : Program) (letters : Bytes) (operands : List Bytes) : Script Unit := do
  let paths := if operands.isEmpty then [([45] : Bytes)] else operands
  match program with
  | .cat => concatenate paths
  | .wc => writeCounts letters operands
  | .sort => sortTexts letters paths
  | .tr => exchangeBytes letters operands
  | .ls => listPaths letters (if operands.isEmpty then [[46]] else operands)
  | .touch =>
    if operands.isEmpty then program.refuse "missing file operand" else operands.forM touchPath
  | .rm =>
    if operands.isEmpty && !letters.contains 102 then program.refuse "missing operand"
    else operands.forM (removePath letters)
  | .mkdir =>
    if operands.isEmpty then program.refuse "missing operand"
    else operands.forM (makePath letters)
  | _ => return

def letters : Program → Bytes
  | .cat => "u"
  | .wc => "lwcm"
  | .sort => "nru"
  | .tr => "cCds"
  | .ls => "aA1rd"
  | .rm => "rRf"
  | .mkdir => "p"
  | _ => []

def run (program : Program) (arguments : List Bytes) : Script Unit := do
  Script.setStatus 0
  match program with
  | .shell _ => return
  | .nothing status => Script.setStatus status
  | .echo =>
    let _ ← Script.send 1 (optionEcho arguments)
  | .sleep => if arguments.isEmpty then program.refuse "missing operand"
  | .seq => writeNumbers arguments
  | .head | .tail =>
    match portionOf { atEnd := program == .tail } arguments with
    | .error text =>
      if Bytes.ofString "invalid number" |>.isPrefixOf text then program.complain text
      else program.refuse text
    | .ok (portion, operands) =>
      writePortions program portion (if operands.isEmpty then [[45]] else operands)
  | program =>
    match splitLetters program.letters arguments with
    | .error text =>
      program.refuse text
      if program = .sort || program = .ls then Script.setStatus 2
    | .ok (letters, operands) => program.runPlain letters operands

end Program

end KnightLang.Shell
