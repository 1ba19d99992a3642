import KnightLang.Shell.Calculation
import KnightLang.Shell.Pattern
import KnightLang.Shell.State

/-!
What the words of a script become when it runs: parameters, outputs and arithmetic are filled in,
the text of some of them is divided into words, and patterns become the names of files.
-/

namespace KnightLang.Shell

/-- A piece of a word that is filled in. -/
inductive Mark where
  /-- A byte, and whether the word may be divided at it. -/
  | glyph (glyph : Glyph) (divides : Bool)
  /-- Another word starts here. -/
  | boundary
  /-- There is a word here even if it is empty. -/
  | presence
  deriving DecidableEq, Repr

/-- How the parts of a script are run. Words contain commands and commands contain words. -/
structure Runner where
  run : Command → Script Unit
  fill : Word → Script (List Mark)

namespace Script

/-- The bytes of marks, with spaces between words. -/
def bytesOf (marks : List Mark) : Bytes :=
  marks.filterMap fun
    | .glyph glyph _ => some glyph.byte
    | .boundary => some 32
    | _ => none

def marksOf (isLiteral divides : Bool) (bytes : Bytes) : List Mark :=
  bytes.map fun byte => .glyph { byte, isLiteral } divides

/-- Lets a word be divided at its bytes that are not in quotes. -/
def dividing (marks : List Mark) : List Mark :=
  marks.map fun
    | .glyph glyph _ => .glyph glyph (!glyph.isLiteral)
    | mark => mark

/-- Fills in the home directory at the front of a text: the own one, or that of a user. -/
def fillTilde (text : Bytes) : Script (List Mark) := do
  match text with
  | 126 :: rest =>
    let user := rest.takeWhile fun byte => byte != 47 && byte != 58
    let home ← match user with
      | [] => value? "HOME"
      | _ => pure (if user == Bytes.ofString "root" then some "/root" else none)
    match home with
    | some home => return marksOf true false home ++ marksOf false false (rest.drop user.length)
    | none => return marksOf false false text
  | _ => return marksOf false false text

/-- The pieces of a text, which start anew after every colon. -/
def colonPieces : Bytes → Bytes → List Bytes
  | [], piece => [piece.reverse]
  | byte :: rest, piece =>
    if byte == 58 then (byte :: piece).reverse :: colonPieces rest []
    else colonPieces rest (byte :: piece)

def refuseCalculation {α : Type} (text : Bytes) (problem : CalculationProblem) : Script α :=
  fail ("arithmetic expression: " ++ problem.message ++ ": \"" ++ text ++ "\"")

def number (name : Bytes) : Script Int64 := do
  let text := (← value? name).getD []
  match Numeral.integer? text with
  | some value => return value
  | none => fail ("Illegal number: " ++ text)

/-- The value of an arithmetic expression that was read from a text. Assignments change variables,
and of what is wrong with the text the first thing in the order of reading is reported. -/
def evaluate (text : Bytes) : Expression → Script Int64
  | .number value => return value
  | .name name => number name
  | .signed sign operand => return Calculation.applySign sign (← evaluate text operand)
  | .binary operation left right => do
    let left ← evaluate text left
    operate operation left (← evaluate text right)
  | .both left right => do
    if (← evaluate text left) = 0 then
      skip right
      return 0
    else return Calculation.ofBool ((← evaluate text right) ≠ 0)
  | .either left right => do
    if (← evaluate text left) = 0 then return Calculation.ofBool ((← evaluate text right) ≠ 0)
    else
      skip right
      return 1
  | .conditional condition yes no => do
    if (← evaluate text condition) = 0 then
      skip yes
      evaluate text no
    else
      let value ← evaluate text yes
      skip no
      return value
  | .assign name operation value => do
    let value ← evaluate text value
    let new ← match operation with
      | none => pure value
      | some operation => operate operation (← number name) value
    assign name (Bytes.ofInt64 new)
    return new
  | .missing problem => refuseCalculation text problem
  | .broken begun problem => do
    let _ ← evaluate text begun
    refuseCalculation text problem
where
  /-- The result of an operation on two words. -/
  operate (operation : Operation) (left right : Int64) : Script Int64 :=
    match Calculation.operate operation left right with
    | some value => return value
    | none => refuseCalculation text .divisionByZero
  /-- Leaves out an expression, which has to be well-formed all the same. -/
  skip (expression : Expression) : Script Unit :=
    match expression.flaw? with
    | some problem => refuseCalculation text problem
    | none => return

def calculate (text : Bytes) : Script Int64 := evaluate text (Calculation.parse text)

def switchLetters (switches : Switches) : Bytes :=
  (if switches.requiresValues then [117] else []) ++ (if switches.keepsFiles then [67] else []) ++
  (if switches.showsCommands then [120] else []) ++
  (if switches.keepsPatterns then [102] else []) ++
  if switches.stopsAtFailure then [101] else []

def joinedArguments : Script Bytes := do
  let separator : Bytes := match ← value? "IFS" with
    | some separators => separators.take 1
    | none => [32]
  return Bytes.joinWith separator (← get).scope.arguments

def parameter? (name : Bytes) : Script (Option Bytes) := do
  let state ← get
  match name with
  | [63] => return some (Bytes.ofNat state.status)
  | [35] => return some (Bytes.ofNat state.scope.arguments.length)
  | [36] => return some "1"
  | [33] => return none
  | [45] => return some (switchLetters state.scope.switches)
  | [64] | [42] => return some (← joinedArguments)
  | first :: _ =>
    if Byte.isDigit first then
      let number := Decimal.value name
      if number = 0 then return some state.name else return state.scope.arguments[number - 1]?
    else value? name
  | [] => return none

/-- Texts that are words of their own. In quotes, an empty one is a word too. -/
def marksOfEach (inQuotes : Bool) (texts : List Bytes) : List Mark :=
  let words := texts.map fun text =>
    (if inQuotes then [Mark.presence] else []) ++ marksOf inQuotes (!inQuotes) text
  (words.intersperse [.boundary]).flatten

/-- The arguments as they are filled in. In quotes, each is a word of its own, or all are one. -/
def fillArguments (name : Bytes) (inQuotes : Bool) : Script (List Mark) := do
  if inQuotes && name == ([42] : Bytes) then return marksOf true false (← joinedArguments)
  else return marksOfEach inQuotes (← get).scope.arguments

def fillValue (name : Bytes) (inQuotes : Bool) : Script (List Mark) := do
  if name == ([64] : Bytes) || name == ([42] : Bytes) then fillArguments name inQuotes
  else return marksOf inQuotes (!inQuotes) ((← parameter? name).getD [])

/-- Refuses a parameter that is not set, if it has to be. -/
def checkSet (name : Bytes) (value : Option Bytes) : Script Unit := do
  let isFree := name == ([64] : Bytes) || name == ([42] : Bytes)
  if value.isNone && !isFree && (← get).scope.switches.requiresValues then
    fail (name ++ ": parameter not set")

def glyphsOf (marks : List Mark) : List Glyph :=
  marks.filterMap fun
    | .glyph glyph _ => some glyph
    | _ => none

def fillAlternative (runner : Runner) (inQuotes : Bool) (word : Word) : Script (List Mark) := do
  let marks ← match word with
    | .text bytes :: rest => return dividing ((← fillTilde bytes) ++ (← runner.fill rest))
    | _ => runner.fill word
  return if inQuotes then marks else dividing marks

def fillParameter (runner : Runner) (name : Bytes) (form : Form) (inQuotes : Bool) :
    Script (List Mark) := do
  let value ← parameter? name
  match form with
  | .malformed => fail "Bad substitution"
  | .plain =>
    checkSet name value
    fillValue name inQuotes
  | .length =>
    checkSet name value
    return marksOf inQuotes (!inQuotes) (Bytes.ofNat (value.getD []).length)
  | .trimmed atEnd longest pattern =>
    checkSet name value
    let matchers := Pattern.ofGlyphs (glyphsOf (← runner.fill pattern))
    let trim := Pattern.trim atEnd longest matchers
    if inQuotes && name == ([64] : Bytes) then
      let arguments := (← get).scope.arguments
      return marksOfEach true
        (if atEnd then (arguments.reverse.modifyHead trim).reverse else arguments.modifyHead trim)
    else return marksOf inQuotes (!inQuotes) (trim (value.getD []))
  | .alternative alsoEmpty kind word =>
    let isSet := match value with
      | some bytes => !(alsoEmpty && bytes.isEmpty)
      | none => false
    match kind with
    | .instead => if isSet then fillAlternative runner inQuotes word else return []
    | .default => if isSet then fillValue name inQuotes else fillAlternative runner inQuotes word
    | .assign =>
      if isSet then fillValue name inQuotes
      else
        let text := bytesOf (← fillAlternative runner true word)
        unless Byte.isLower (Byte.toLower (name.headD 0)) || name.headD 0 == 95 do
          fail (name ++ ": bad variable name")
        assign name text
        return marksOf inQuotes (!inQuotes) text
    | .complain =>
      if isSet then fillValue name inQuotes
      else
        let text := bytesOf (← fillAlternative runner true word)
        let text : Bytes :=
          if !word.isEmpty then text
          else if alsoEmpty then "parameter not set or null"
          else "parameter not set"
        fail (name ++ ": " ++ text)

def fillPart (runner : Runner) : Part → Script (List Mark)
  | .text bytes => return marksOf false false bytes
  | .quoted bytes => return .presence :: marksOf true false bytes
  | .parameter name form inQuotes => fillParameter runner name form inQuotes
  | .output body inQuotes => do
    let output ← outputOf (runner.run (.separate body))
    let output := Bytes.dropRightWhile (· == Byte.newline) (output.filter (· != 0))
    return marksOf inQuotes (!inQuotes) output
  | .arithmetic expression inQuotes => do
    let value ← calculate (bytesOf (← runner.fill expression))
    return marksOf inQuotes (!inQuotes) (Bytes.ofInt64 value)

def fillParts (runner : Runner) : List Part → Script (List Mark)
  | [] => return []
  | part :: parts => return (← fillPart runner part) ++ (← fillParts runner parts)

/-- A word as it is filled in where it can be divided. -/
def fillWord (runner : Runner) (word : Word) : Script (List Mark) := do
  match word with
  | .text bytes :: rest =>
    if rest.isEmpty || bytes.contains 47 then return (← fillTilde bytes) ++ (← runner.fill rest)
    else runner.fill word
  | _ => runner.fill word

def textOf (runner : Runner) (word : Word) : Script Bytes := return bytesOf (← fillWord runner word)

/-- The value of an assignment, in which a home directory can also follow a colon. -/
def assignedText (runner : Runner) (word : Word) : Script Bytes := do
  match word with
  | .text bytes :: rest =>
    let pieces ← (colonPieces bytes []).mapM fillTilde
    return bytesOf (pieces.flatten ++ (← runner.fill rest))
  | _ => return bytesOf (← runner.fill word)

/-- What a word is divided into so far. -/
structure Dividing where
  /-- The current word, the latest glyph first, if there is one. -/
  current : Option (List Glyph) := none
  /-- The words before it, the latest first. -/
  words : List (List Glyph) := []
  /-- Whether a blank ended the word before, so that another separator still belongs to it. -/
  afterBlank : Bool := false
  deriving DecidableEq, Repr

def Dividing.close (state : Dividing) (afterBlank : Bool) : Dividing :=
  match state.current with
  | some glyphs => { words := glyphs.reverse :: state.words, afterBlank }
  | none => { state with afterBlank := state.afterBlank && afterBlank }

def Dividing.step (separators : Bytes) (state : Dividing) (mark : Mark) : Dividing :=
  match mark with
  | .boundary => state.close false
  | .presence => { state with current := some (state.current.getD []), afterBlank := false }
  | .glyph glyph divides =>
    if divides && separators.contains glyph.byte then
      if [32, 9, 10].contains glyph.byte then
        { state.close true with afterBlank := state.current.isSome || state.afterBlank }
      else if state.current.isSome then state.close false
      else if state.afterBlank then { state with afterBlank := false }
      else { state with words := [] :: state.words }
    else { state with current := some (glyph :: state.current.getD []), afterBlank := false }

def divide (separators : Bytes) (marks : List Mark) : List (List Glyph) :=
  let state := marks.foldl (Dividing.step separators) {}
  (state.close false).words.reverse

def components : List Glyph → List Glyph → List (List Glyph)
  | [], piece => [piece.reverse]
  | glyph :: rest, piece =>
    if glyph.byte == 47 then piece.reverse :: components rest []
    else components rest (glyph :: piece)

/-- Whether a name in a directory matches a pattern; a name with a dot in front only matches a
pattern with one. -/
def acceptsName (matchers : List Matcher) (name : Bytes) : Bool :=
  (name.head? != some 46 || matchers.head? == some (.exactly 46)) && Pattern.accepts matchers name

/-- The paths that patterns between slashes match, after a path so far. -/
def matchingPaths (tree : FileTree) : Bytes → List (List Glyph) → List Bytes
  | sofar, [] => [sofar]
  | sofar, component :: rest =>
    let ending : Bytes := if rest.isEmpty then [] else [47]
    let matchers := Pattern.ofGlyphs component
    if Pattern.isOpen matchers then
      let base : Bytes := if sofar.isEmpty then [46] else sofar
      match tree.locate base with
      | .ok found =>
        if tree.isDirectory found then
          let names := ([[46], [46, 46]] : List Bytes) ++ tree.names found
          (names.filter (acceptsName matchers)).flatMap fun name =>
            matchingPaths tree (sofar ++ name ++ ending) rest
        else []
      | .error _ => []
    else
      let path := sofar ++ component.map Glyph.byte ++ ending
      let isThere := match tree.open? (if path.isEmpty then [46] else path) with
        | .ok _ => true
        | .error _ => false
      if isThere then matchingPaths tree path rest else []

/-- The words that a divided word stands for: the paths that it matches in order, or its own
text. -/
def matching (tree : FileTree) (keepsPatterns : Bool) (glyphs : List Glyph) : List Bytes :=
  let own := glyphs.map Glyph.byte
  if keepsPatterns || !(Pattern.isOpen (Pattern.ofGlyphs glyphs)) then [own]
  else
    let found := matchingPaths tree [] (components glyphs [])
    if found.isEmpty then [own] else found.mergeSort fun left right => !(right < left)

def wordsOf (runner : Runner) (word : Word) : Script (List Bytes) := do
  let marks ← fillWord runner word
  let state ← get
  let divided := divide (← separators) marks
  return divided.flatMap (matching state.files state.scope.switches.keepsPatterns)

end Script

end KnightLang.Shell
