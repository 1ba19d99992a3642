import KnightLang.FileTree
import KnightLang.Shell.Numeral

/-!
The conditions that the command `test` decides, given as words.
-/

namespace KnightLang.Shell

/-- What is wrong with a condition. -/
inductive ConditionProblem where
  | noOperand (operator : Bytes)
  | noParenthesis
  | tooManyWords (word : Bytes)
  | illegalNumber (word : Bytes)
  deriving DecidableEq, Repr

def ConditionProblem.message : ConditionProblem → Bytes
  | .noOperand operator => operator ++ ": argument expected"
  | .noParenthesis => "closing paren expected"
  | .tooManyWords word => word ++ ": unexpected operator"
  | .illegalNumber word => "Illegal number: " ++ word

namespace Condition

def unaryOperators : List Bytes :=
  ["-r", "-w", "-x", "-e", "-f", "-d", "-c", "-b", "-p", "-u", "-g", "-k", "-s", "-t", "-z", "-n",
    "-h", "-O", "-G", "-L", "-S"]

def binaryOperators : List Bytes :=
  ["=", "!=", "<", ">", "-eq", "-ne", "-ge", "-gt", "-le", "-lt", "-nt", "-ot", "-ef"]

/-- What a word is in a condition. -/
inductive Role where
  | operand
  | unary
  | binary
  | not
  | both
  | either
  | opening
  | closing
  | nothing
  deriving DecidableEq, Repr

/-- The role of the first of some words. An operator on one word is an operand before an operator
on two, and so is the last word. -/
def role : List Bytes → Role
  | [] => .nothing
  | word :: rest =>
    if unaryOperators.contains word then
      match rest with
      | [] => .operand
      | [_] => .unary
      | next :: _ => if binaryOperators.contains next then .operand else .unary
    else if binaryOperators.contains word then .binary
    else if word == Bytes.ofString "!" then .not
    else if word == Bytes.ofString "-a" then .both
    else if word == Bytes.ofString "-o" then .either
    else if word == Bytes.ofString "(" then if rest.isEmpty then .operand else .opening
    else if word == Bytes.ofString ")" then .closing
    else .operand

def fileHolds (tree : FileTree) (operator path : Bytes) : Bool :=
  match operator, tree.open? path with
  | [45, 102], .ok (.file _) => true
  | [45, 100], .ok .directory => true
  | [45, 99], .ok .sink => true
  | [45, 115], .ok (.file contents) => !contents.isEmpty
  | [45, 115], .ok .directory => true
  | [45, 120], .ok .directory => true
  | [45, letter], .ok _ => [101, 114, 119, 79, 71].contains letter
  | _, _ => false

def unaryHolds (tree : FileTree) (operator word : Bytes) : Bool :=
  match operator with
  | [45, 122] => word.isEmpty
  | [45, 110] => !word.isEmpty
  | _ => fileHolds tree operator word

/-- The number that a word stands for, in decimal. -/
def number (word : Bytes) : Except ConditionProblem Int :=
  let trimmed := Bytes.dropRightWhile Byte.isSpace (word.dropWhile Byte.isSpace)
  match Integer.signed false trimmed with
  | .ok value => .ok value
  | .error _ => .error (.illegalNumber word)

def binaryHolds (operator left right : Bytes) : Except ConditionProblem Bool :=
  let numbers := fun (holds : Int → Int → Bool) => do
    let left ← number left
    let right ← number right
    return holds left right
  match operator with
  | [61] => .ok (left == right)
  | [33, 61] => .ok (left != right)
  | [60] => .ok (left < right)
  | [62] => .ok (right < left)
  | [45, 101, 113] => numbers (· == ·)
  | [45, 110, 101] => numbers (· != ·)
  | [45, 103, 101] => numbers fun left right => right ≤ left
  | [45, 103, 116] => numbers fun left right => right < left
  | [45, 108, 101] => numbers (· ≤ ·)
  | [45, 108, 116] => numbers (· < ·)
  | [45, 101, 102] => .ok (left == right)
  | _ => .ok false

/-- What was decided, and the words from the last one that was looked at. -/
abbrev Decided := Except ConditionProblem (Bool × List Bytes)

mutual

/-- Decides conditions of which one has to hold. -/
def anyOf (tree : FileTree) : Nat → List Bytes → Decided
  | 0, words => .ok (false, words)
  | fuel + 1, words => do
    let (first, words) ← allOf tree fuel words
    if role words.tail = .either then
      let (second, words) ← anyOf tree fuel words.tail.tail
      return (first || second, words)
    else return (first, words)

def allOf (tree : FileTree) : Nat → List Bytes → Decided
  | 0, words => .ok (false, words)
  | fuel + 1, words => do
    let (first, words) ← negated tree fuel words
    if role words.tail = .both then
      let (second, words) ← allOf tree fuel words.tail.tail
      return (first && second, words)
    else return (first, words)

def negated (tree : FileTree) : Nat → List Bytes → Decided
  | 0, words => .ok (false, words)
  | fuel + 1, words => do
    if role words = .not then
      if words.tail.isEmpty then return (true, words)
      else
        let (inner, words) ← negated tree fuel words.tail
        return (!inner, words)
    else primary tree fuel words

/-- Decides a condition without such signs. -/
def primary (tree : FileTree) : Nat → List Bytes → Decided
  | 0, words => .ok (false, words)
  | fuel + 1, words => do
    match role words, words with
    | .nothing, _ => return (false, words)
    | .opening, _ :: inner =>
      if role inner = .closing then return (false, inner)
      else
        let (result, words) ← anyOf tree fuel inner
        if role words.tail = .closing then return (result, words.tail)
        else throw .noParenthesis
    | .unary, operator :: words =>
      match words with
      | [] => throw (.noOperand operator)
      | word :: _ => return (unaryHolds tree operator word, words)
    | _, left :: rest =>
      match rest with
      | operator :: words =>
        if role rest = .binary then
          match words with
          | [] => throw (.noOperand operator)
          | right :: _ => return (← binaryHolds operator left right, words)
        else return (!left.isEmpty, left :: rest)
      | [] => return (!left.isEmpty, [left])
    | _, [] => return (false, words)

end

/-- Decides a condition. The fuel bounds its parts. With three words of which the second is an
operator, the others are its operands; with parentheses or a sign around few words, what they
enclose is decided first. -/
def decide (tree : FileTree) : Nat → List Bytes → Except ConditionProblem Bool
  | 0, _ => .ok false
  | fuel + 1, words =>
    let whole := fun (_ : Unit) => do
      let (result, rest) ← anyOf tree (4 * words.length + 4) words
      match rest with
      | last :: _ :: _ => throw (.tooManyWords last)
      | _ => return result
    match words with
    | [] => .ok false
    | [left, operator, right] =>
      if binaryOperators.contains operator then binaryHolds operator left right
      else if left == Bytes.ofString "(" && right == Bytes.ofString ")" then .ok (!operator.isEmpty)
      else if left == Bytes.ofString "!" then (decide tree fuel [operator, right]).map (!·)
      else whole ()
    | [first, second, third, fourth] =>
      if first == Bytes.ofString "!" then (decide tree fuel [second, third, fourth]).map (!·)
      else if first == Bytes.ofString "(" && fourth == Bytes.ofString ")" then
        decide tree fuel [second, third]
      else whole ()
    | _ => whole ()

end Condition

end KnightLang.Shell
