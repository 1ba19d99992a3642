import KnightLang.Shell.Numeral
import KnightLang.Shell.Word

/-!
Arithmetic expressions of shell scripts, over signed words of 64 bits.
-/

namespace KnightLang.Shell

/-- An operation on two words. -/
inductive Operation where
  | multiply
  | divide
  | remainder
  | add
  | subtract
  | shiftLeft
  | shiftRight
  | less
  | atMost
  | greater
  | atLeast
  | equal
  | different
  | bitAnd
  | bitXor
  | bitOr
  deriving DecidableEq, Repr

/-- An operation on one word. -/
inductive Sign where
  | minus
  | plus
  | not
  | complement
  deriving DecidableEq, Repr

/-- What is wrong with an arithmetic expression. -/
inductive CalculationProblem where
  | noOperand
  | noEnd
  | noColon
  | noParenthesis
  | divisionByZero
  deriving DecidableEq, Repr

def CalculationProblem.message : CalculationProblem → Bytes
  | .noOperand => "expecting primary"
  | .noEnd => "expecting EOF"
  | .noColon => "expecting ':'"
  | .noParenthesis => "expecting ')'"
  | .divisionByZero => "division by zero"

/-- An arithmetic expression. It also says where its text is not well-formed, because what comes
before that place is worked out first. -/
inductive Expression where
  | number (value : Int64)
  | name (name : Bytes)
  | signed (sign : Sign) (operand : Expression)
  | binary (operation : Operation) (left right : Expression)
  | both (left right : Expression)
  | either (left right : Expression)
  | conditional (condition yes no : Expression)
  /-- Gives a variable a value, which may be worked out from the one it has. -/
  | assign (name : Bytes) (operation : Option Operation) (value : Expression)
  /-- Stands where an expression has to be and is not. -/
  | missing (problem : CalculationProblem)
  /-- Is followed by something other than what has to follow it. -/
  | broken (begun : Expression) (problem : CalculationProblem)
  deriving DecidableEq, Repr

def Expression.flaw? : Expression → Option CalculationProblem
  | .number _ | .name _ => none
  | .signed _ operand => operand.flaw?
  | .binary _ left right | .both left right | .either left right => left.flaw? <|> right.flaw?
  | .conditional condition yes no => condition.flaw? <|> yes.flaw? <|> no.flaw?
  | .assign _ _ value => value.flaw?
  | .missing problem => some problem
  | .broken begun problem => begun.flaw? <|> some problem

namespace Calculation

def ofBool (flag : Bool) : Int64 := if flag then 1 else 0

/-- The result of an operation, if it has one. -/
def operate (operation : Operation) (left right : Int64) : Option Int64 :=
  match operation with
  | .multiply => some (left * right)
  | .divide => if right = 0 then none else some (left / right)
  | .remainder => if right = 0 then none else some (left % right)
  | .add => some (left + right)
  | .subtract => some (left - right)
  | .shiftLeft => some (left <<< right)
  | .shiftRight => some (left >>> right)
  | .less => some (ofBool (left < right))
  | .atMost => some (ofBool (left ≤ right))
  | .greater => some (ofBool (right < left))
  | .atLeast => some (ofBool (right ≤ left))
  | .equal => some (ofBool (left = right))
  | .different => some (ofBool (left ≠ right))
  | .bitAnd => some (left &&& right)
  | .bitXor => some (left ^^^ right)
  | .bitOr => some (left ||| right)

/-- The result of a sign. -/
def applySign (sign : Sign) (operand : Int64) : Int64 :=
  match sign with
  | .minus => -operand
  | .plus => operand
  | .not => ofBool (operand = 0)
  | .complement => ~~~operand

/-- A token of an expression. -/
inductive Token where
  | number (value : Int64)
  | name (name : Bytes)
  | sign (text : Bytes)
  /-- A byte that no expression has. -/
  | other
  deriving DecidableEq, Repr

/-- The signs of expressions, the longer ones first. -/
def signs : List Bytes :=
  let long := ["<<=", ">>=", "<<", ">>", "<=", ">=", "==", "!=", "&&", "||", "*=", "/=", "%=", "+=",
    "-=", "&=", "^=", "|="]
  let short := ["<", ">", "=", "!", "&", "|", "*", "/", "%", "+", "-", "^", "~", "?", ":", "(", ")"]
  (long ++ short).map Bytes.ofString

/-- The tokens of a text; the fuel bounds their number. -/
def tokens : Nat → Bytes → List Token
  | 0, _ => []
  | _ + 1, [] => []
  | fuel + 1, byte :: rest =>
    let text := byte :: rest
    if byte == 32 || byte == 9 || byte == 10 then tokens fuel rest
    else if Byte.isDigit byte then
      match Numeral.leadingInteger? text with
      | some (value, after) =>
        let value := Numeral.clamp Numeral.least Numeral.most value
        .number (Int64.ofInt value) :: tokens fuel after
      | none => [.other]
    else if isNameStart byte then
      let name := text.takeWhile isNameByte
      .name name :: tokens fuel (text.drop name.length)
    else
      match signs.find? fun sign => sign.isPrefixOf text with
      | some sign => .sign sign :: tokens fuel (text.drop sign.length)
      | none => [.other]

/-- The operations by how strongly they bind, the strongest first. -/
def levels : List (List (Bytes × Operation)) :=
  [[("*", .multiply), ("/", .divide), ("%", .remainder)], [("+", .add), ("-", .subtract)],
    [("<<", .shiftLeft), (">>", .shiftRight)],
    [("<", .less), ("<=", .atMost), (">", .greater), (">=", .atLeast)],
    [("==", .equal), ("!=", .different)], [("&", .bitAnd)], [("^", .bitXor)], [("|", .bitOr)]]

/-- The operation of a sign that gives a variable a value. -/
def assignment? (sign : Bytes) : Option (Option Operation) :=
  let signs : List (Bytes × Option Operation) :=
    [("=", none), ("*=", some .multiply), ("/=", some .divide), ("%=", some .remainder),
      ("+=", some .add), ("-=", some .subtract), ("<<=", some .shiftLeft),
      (">>=", some .shiftRight), ("&=", some .bitAnd), ("^=", some .bitXor), ("|=", some .bitOr)]
  signs.lookup sign

/-- An expression at the front of tokens and those after it; none are left after a flaw. -/
abbrev Parsed := Expression × List Token

def noOperand : Parsed := (.missing .noOperand, [])

mutual

def assignment : Nat → List Token → Parsed
  | 0, _ => noOperand
  | fuel + 1, tokens =>
    match tokens with
    | .name name :: .sign sign :: rest =>
      match assignment? sign with
      | some operation =>
        let (value, rest) := assignment fuel rest
        (.assign name operation value, rest)
      | none => conditional fuel tokens
    | _ => conditional fuel tokens

/-- Reads a choice between two expressions, or what can stand in its condition. -/
def conditional : Nat → List Token → Parsed
  | 0, _ => noOperand
  | fuel + 1, tokens =>
    let (condition, rest) := disjunction fuel tokens
    match rest with
    | .sign [63] :: rest =>
      let (yes, rest) := assignment fuel rest
      match rest with
      | .sign [58] :: rest =>
        let (no, rest) := conditional fuel rest
        (.conditional condition yes no, rest)
      | _ => (.conditional condition yes (.missing .noColon), [])
    | _ => (condition, rest)

/-- Reads expressions of which one has to hold. -/
def disjunction : Nat → List Token → Parsed
  | 0, _ => noOperand
  | fuel + 1, tokens =>
    let (left, rest) := conjunction fuel tokens
    match rest with
    | .sign [124, 124] :: rest =>
      let (right, rest) := disjunction fuel rest
      (.either left right, rest)
    | _ => (left, rest)

def conjunction : Nat → List Token → Parsed
  | 0, _ => noOperand
  | fuel + 1, tokens =>
    let (left, rest) := binary fuel levels.length tokens
    match rest with
    | .sign [38, 38] :: rest =>
      let (right, rest) := conjunction fuel rest
      (.both left right, rest)
    | _ => (left, rest)

def binary : Nat → Nat → List Token → Parsed
  | 0, _, _ => noOperand
  | fuel + 1, 0, tokens => operand fuel tokens
  | fuel + 1, level + 1, tokens =>
    let (left, rest) := binary fuel level tokens
    binaryAfter fuel level left rest

def binaryAfter : Nat → Nat → Expression → List Token → Parsed
  | 0, _, _, _ => noOperand
  | fuel + 1, level, left, tokens =>
    match tokens with
    | .sign sign :: rest =>
      match (levels.getD level []).lookup sign with
      | some operation =>
        let (right, rest) := binary fuel level rest
        binaryAfter fuel level (.binary operation left right) rest
      | none => (left, tokens)
    | _ => (left, tokens)

def operand : Nat → List Token → Parsed
  | 0, _ => noOperand
  | fuel + 1, tokens =>
    match tokens with
    | .number value :: rest => (.number value, rest)
    | .name name :: rest => (.name name, rest)
    | .sign sign :: rest =>
      let signed := fun (sign : Sign) =>
        let (value, rest) := operand fuel rest
        (Expression.signed sign value, rest)
      match sign with
      | [45] => signed .minus
      | [43] => signed .plus
      | [33] => signed .not
      | [126] => signed .complement
      | [40] =>
        let (value, rest) := assignment fuel rest
        match rest with
        | .sign [41] :: rest => (value, rest)
        | _ => (.broken value .noParenthesis, [])
      | _ => noOperand
    | _ => noOperand

end

def parse (text : Bytes) : Expression :=
  let tokens := tokens text.length text
  let (expression, rest) := assignment (16 * (tokens.length + 2)) tokens
  if rest.isEmpty then expression else .broken expression .noEnd

end Calculation

end KnightLang.Shell
